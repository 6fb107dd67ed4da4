import WebP.Proofs.Playback.Steps

/-!
# Transcripts of playback

Whoever drives a decoder sees what it answers to each operation, and what it shows of itself
afterwards. A transcript is a list of all that. What is to be proved of every transcript is
proved of one exchange, together with what is to be remembered of the exchanges before it.

## Main definitions

* `WebP.Answer`, `WebP.Display`, `WebP.Exchange`: what is seen of one operation.
* `WebP.Decoder.transcript`: what is seen of several.
* `WebP.Course`: what a transcript tells of the attached file.

## Main results

* `WebP.Decoder.run_induction`: from one exchange to a transcript.
* `WebP.Decoder.status_run`: the status is the one that was given last.
* `WebP.Decoder.file_eq_apply`: the attached file is the one that the transcript tells of.
-/

namespace WebP

/-! ### Exchanges -/

/-- What a decoder answers to an operation. -/
inductive Answer (ε : Type) where
  /-- The operation returns nothing and leaves the status as it is. -/
  | done
  | cleared
  | attached (outcome : Parsed Unit)
  | frame (outcome : Outcome (Failure ε) PixelBuffer)

namespace Answer

variable {ε : Type}

/-- The status that goes with an answer. -/
def status? : Answer ε → Option Status
  | .done => none
  | .cleared => some .ok
  | .attached outcome => some <|
      match outcome.result with
      | .ok _ => .ok
      | .error fault => fault.status
  | .frame outcome => some <|
      match outcome.result with
      | .ok _ => .ok
      | .error failure => failure.status

/-- A frame is returned. -/
def isFrame : Answer ε → Bool
  | .frame outcome => outcome.result.isOk
  | _ => false

/-- A frame was asked for, and none is returned. -/
def isFailure : Answer ε → Bool
  | .frame outcome => !outcome.result.isOk
  | _ => false

end Answer

/-- What a decoder shows of itself besides its status. -/
structure Display where
  /-- The description of the attached file. -/
  header : Option FileHeader
  index : Option Nat
  delay : Option Nat
  layout : ColorLayout
  sampleSize : Nat
  byteSize : Nat

/-- An operation, what is answered to it, and what the decoder shows afterwards. -/
structure Exchange (ε : Type) where
  operation : Operation
  answer : Answer ε
  display : Display

/-- The status after an exchange, if it was `status` before. -/
def Exchange.statusAfter {ε : Type} (status : Status) (exchange : Exchange ε) : Status :=
  exchange.answer.status?.getD status

namespace Decoder

section Exchanges

variable {σ π ε : Type}

def display (decoder : Decoder σ π) : Display where
  header := decoder.header?
  index := decoder.index
  delay := decoder.delay?
  layout := decoder.layout
  sampleSize := decoder.config.sampleSize
  byteSize := decoder.byteSize

variable [BufferPool π] [ToString ε]

/-- What is answered to an operation. -/
def answer (codec : Codec σ ε) (decoder : Decoder σ π) : Operation → Answer ε
  | .nextFrame => .frame (decoder.nextFrame codec).1
  | .attach header data => .attached (decoder.attach header data).1
  | .clear => .cleared
  | .advance | .resetIndex | .releaseFrame _ | .setLayout _ => .done

/-- What is seen of an operation. -/
def exchange (codec : Codec σ ε) (decoder : Decoder σ π) (operation : Operation) : Exchange ε where
  operation := operation
  answer := decoder.answer codec operation
  display := (decoder.apply codec operation).display

/-- What is seen of some operations, one after the other. -/
def transcript (codec : Codec σ ε) : Decoder σ π → List Operation → List (Exchange ε)
  | _, [] => []
  | decoder, operation :: operations =>
    decoder.exchange codec operation ::
      transcript codec (decoder.apply codec operation) operations

/-- **From one exchange to a transcript.** Let something be remembered of each exchange, and let
every operation keep the relation of the decoder to what is remembered. Then the decoder is in
that relation to what is remembered of a transcript. -/
theorem run_induction {τ : Type} {codec : Codec σ ε} {R : Decoder σ π → τ → Prop}
    {remember : τ → Exchange ε → τ} (operations : List Operation)
    (step : ∀ operation ∈ operations, ∀ {decoder : Decoder σ π} {memory : τ}, R decoder memory →
      R (decoder.apply codec operation) (remember memory (decoder.exchange codec operation)))
    {decoder : Decoder σ π} {memory : τ} (h : R decoder memory) :
    R (decoder.run codec operations)
      ((decoder.transcript codec operations).foldl remember memory) := by
  induction operations generalizing decoder memory with
  | nil => exact h
  | cons operation operations ih =>
    have hnext := step operation (List.mem_cons_self ..) h
    exact ih (fun later hlater => step later (List.mem_cons_of_mem _ hlater)) hnext

/-! ### The status -/

/-- An operation gives the decoder the status that goes with its answer, or leaves it its own. -/
theorem status_apply (codec : Codec σ ε) (decoder : Decoder σ π) (operation : Operation) :
    (decoder.apply codec operation).status =
      (decoder.exchange codec operation).statusAfter decoder.status := by
  cases operation with
  | advance => exact decoder.status_advance
  | nextFrame => exact (decoder.responds_nextFrame codec).status_eq
  | resetIndex => rfl
  | releaseFrame frame => rfl
  | clear => rfl
  | attach header data =>
    simp only [apply, exchange, answer, Exchange.statusAfter]
    rcases Nat.lt_or_ge data.length header.fileLength with short | complete
    · rw [decoder.attach_of_short short]
      rfl
    · rw [decoder.attach_of_complete complete]
      rfl
  | setLayout layout => rfl

/-- The status is the one that was given last. -/
theorem status_run (codec : Codec σ ε) (decoder : Decoder σ π) (operations : List Operation) :
    (decoder.run codec operations).status =
      (decoder.transcript codec operations).foldl Exchange.statusAfter decoder.status := by
  refine run_induction (R := fun decoder status => decoder.status = status) operations ?_ rfl
  rintro operation - decoder _ rfl
  exact decoder.status_apply codec operation

end Exchanges

end Decoder

/-! ### The course of a playback -/

/-- What a transcript tells of the file that is attached. -/
structure Course where
  /-- The file that was attached last, unless it has been detached. -/
  file : Option (FileHeader × Bytes) := none
  /-- How often the next frame was selected since the file was attached or the decoder went back
  to before the first frame. -/
  advances : Nat := 0
  /-- How many frames were returned since the file was attached. -/
  frames : Nat := 0

/-- The course after one more exchange. -/
def Course.after {ε : Type} (course : Course) (exchange : Exchange ε) : Course :=
  match exchange.operation, exchange.answer with
  | .attach header data, .attached outcome =>
    if outcome.result.isOk then { file := some (header, data) } else {}
  | .clear, _ => {}
  | .advance, _ => { course with advances := course.advances + 1 }
  | .resetIndex, _ => { course with advances := 0 }
  | .nextFrame, answer =>
    if answer.isFrame then { course with frames := course.frames + 1 } else course
  | _, _ => course

/-- The file that is attached is the one that a transcript tells of. -/
theorem Decoder.file_eq_apply {σ π ε : Type} [BufferPool π] [ToString ε] (codec : Codec σ ε)
    {decoder : Decoder σ π} {course : Course}
    (file : decoder.source.map (fun source => (source.header, source.data)) = course.file)
    (operation : Operation) :
    (decoder.apply codec operation).source.map (fun source => (source.header, source.data)) =
      (course.after (decoder.exchange codec operation)).file := by
  cases operation with
  | advance => exact (congrArg _ decoder.source_advance).trans file
  | nextFrame =>
    have hnext := (decoder.responds_nextFrame codec).file_eq.trans file
    simp only [Course.after, exchange, answer]
    split
    · exact hnext
    · exact hnext
  | resetIndex => exact file
  | releaseFrame frame => exact file
  | clear => rfl
  | attach header data =>
    simp only [apply, exchange, answer]
    rcases Nat.lt_or_ge data.length header.fileLength with short | complete
    · rw [decoder.attach_of_short short]
      rfl
    · rw [decoder.attach_of_complete complete]
      rfl
  | setLayout layout => exact file

end WebP
