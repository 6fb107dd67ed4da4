import WebP.Proofs.Playback.PoolIndependence

/-!
# Requests that fail leave no trace

A frame is drawn only when its image has been decoded. So a request that fails, for whatever
reason, leaves the file, the canvas and the selected frame as they were, and if the codec has no
memory one may take such requests out of a transcript: what is left is the transcript of the
operations that are left. Only the status tells of a failure, until the next operation that has
one of its own.

## Main definitions

* `WebP.FailuresDropped`: a transcript without some of the requests that failed.

## Main results

* `WebP.Decoder.samePlayback_nextFrame`: what a request that fails leaves.
* `WebP.Decoder.transcript_without_failures`: transcripts without requests that failed.
-/

namespace WebP

variable {σ π π₁ π₂ ε : Type}

/-- What is left of a transcript when some requests that failed are taken out of it. -/
inductive FailuresDropped : List (Exchange ε) → List (Exchange ε) → Prop
  | nil : FailuresDropped [] []
  | keep (exchange : Exchange ε) {exchanges kept : List (Exchange ε)}
      (rest : FailuresDropped exchanges kept) :
      FailuresDropped (exchange :: exchanges) (exchange :: kept)
  | drop (exchange : Exchange ε) {exchanges kept : List (Exchange ε)}
      (failed : exchange.answer.isFailure) (rest : FailuresDropped exchanges kept) :
      FailuresDropped (exchange :: exchanges) kept

/-- All requests that failed may be taken out. -/
theorem failuresDropped_filter (exchanges : List (Exchange ε)) :
    FailuresDropped exchanges (exchanges.filter fun exchange => !exchange.answer.isFailure) := by
  induction exchanges with
  | nil => exact .nil
  | cons exchange exchanges ih =>
    cases hfailed : exchange.answer.isFailure with
    | true =>
      rw [List.filter_cons_of_neg (by simp [hfailed])]
      exact .drop exchange hfailed ih
    | false =>
      rw [List.filter_cons_of_pos (by simp [hfailed])]
      exact .keep exchange ih

namespace Decoder

section Requests

variable [BufferPool π] [ToString ε] {codec : Codec σ ε} {decoder : Decoder σ π}

/-- A request that fails leaves everything that playback depends on as it was. -/
theorem samePlayback_nextFrame {failure : Failure ε}
    (failed : (decoder.nextFrame codec).1.result = .error failure) :
    (decoder.nextFrame codec).2.SamePlayback decoder := by
  have hresponds := decoder.responds_nextFrame codec
  have hconfig := hresponds.config_eq
  exact ⟨⟨⟨congrArg DecoderConfig.sampleSize hconfig, hresponds.index_eq, hresponds.layout_eq⟩,
    hresponds.source_eq_of_error failed⟩, hconfig⟩

/-- Only a request for a frame is answered with a failure. -/
theorem samePlayback_apply {operation : Operation}
    (failed : (decoder.answer codec operation).isFailure) :
    (decoder.apply codec operation).SamePlayback decoder := by
  cases operation with
  | nextFrame =>
    cases hresult : (decoder.nextFrame codec).1.result with
    | ok output =>
      simp only [answer, Answer.isFailure, hresult] at failed
      cases failed
    | error failure => exact samePlayback_nextFrame hresult
  | advance => cases failed
  | resetIndex => cases failed
  | releaseFrame frame => cases failed
  | clear => cases failed
  | attach header data => cases failed
  | setLayout layout => cases failed

end Requests

/-- A decoder that is asked for what is left answers what is left, if it played like the other at
first; and it does so at the end. -/
theorem PlaysLike.transcript_of_failuresDropped [BufferPool π₁] [LawfulBufferPool π₁]
    [BufferPool π₂] [LawfulBufferPool π₂] [ToString ε] {codec : Codec σ ε}
    {first : Decoder σ π₁} {second : Decoder σ π₂} (h : first.PlaysLike (fun _ _ => True) second)
    (memoryless : codec.DependsOnRequest) {operations : List Operation}
    {kept : List (Exchange ε)}
    (dropped : FailuresDropped (first.transcript codec operations) kept) :
    second.transcript codec (kept.map (·.operation)) = kept ∧
      (first.run codec operations).PlaysLike (fun _ _ => True)
        (second.run codec (kept.map (·.operation))) := by
  induction operations generalizing first second kept with
  | nil =>
    cases dropped
    exact ⟨rfl, h⟩
  | cons operation operations ih =>
    cases dropped with
    | keep _ rest =>
      obtain ⟨hexchange, hnext⟩ := h.exchange memoryless.agree operation
      obtain ⟨hrest, hlast⟩ := ih hnext rest
      exact ⟨congrArg₂ List.cons hexchange.symm hrest, hlast⟩
    | drop _ failed rest =>
      exact ih ⟨(samePlayback_apply failed).trans h.toSamePlayback, trivial⟩ rest

/-- **Requests that fail leave no trace.** Whatever the state of the decoder and the reason of the
failure, the file, the canvas on it, the selected frame, the settings and the layout stay as they
are. For a codec without memory one may therefore take any requests that failed out of a sequence
of operations: all others have the same answers and show the same, the last status is the one that
goes with them, and the decoder ends with the same canvas. -/
theorem transcript_without_failures (codec : Codec σ ε) [BufferPool π] [ToString ε]
    (decoder : Decoder σ π) :
    (∀ failure, (decoder.nextFrame codec).1.result = .error failure →
      (decoder.nextFrame codec).2.SamePlayback decoder) ∧
    (LawfulBufferPool π → codec.DependsOnRequest → ∀ operations kept,
      FailuresDropped (decoder.transcript codec operations) kept →
        decoder.transcript codec (kept.map (·.operation)) = kept ∧
        (decoder.run codec (kept.map (·.operation))).status =
          kept.foldl Exchange.statusAfter decoder.status ∧
        (decoder.run codec (kept.map (·.operation))).SamePlayback
          (decoder.run codec operations)) := by
  refine ⟨fun failure => samePlayback_nextFrame, ?_⟩
  intro lawful memoryless operations kept dropped
  have hlike : decoder.PlaysLike (fun _ _ => True) decoder :=
    ⟨⟨⟨⟨rfl, rfl, rfl⟩, rfl⟩, rfl⟩, trivial⟩
  obtain ⟨htranscript, hlast⟩ := hlike.transcript_of_failuresDropped memoryless dropped
  refine ⟨htranscript, ?_, hlast.toSamePlayback.symm⟩
  rw [status_run, htranscript]

end Decoder

/-! ### A first frame that is never decoded -/

/-- A codec that cannot decode the first frame of a file. -/
def skippingCodec : Codec Nat String where
  decode calls request blank :=
    if request.index = 0 then (.error "unknown", blank.fill 7, calls + 1)
    else (.ok (), blank.fill (UInt32.ofNat (2 ^ 31 + 100 * request.index)), calls + 1)

theorem dependsOnRequest_skippingCodec : skippingCodec.DependsOnRequest := by
  intro state₁ state₂ request blank₁ blank₂ hshape₁ hshape₂
  unfold skippingCodec
  dsimp only
  split
  · exact ⟨rfl, fun h => nomatch h⟩
  · exact ⟨rfl, fun _ => hshape₁.fill_congr hshape₂ _⟩

/-- An animation is played twice, after frames were asked for too early. -/
def impatientOperations : List Operation :=
  [.nextFrame, .attach blinkingHeader blinking, .nextFrame, .advance, .nextFrame, .advance,
    .nextFrame, .advance, .nextFrame, .advance, .nextFrame]

/-- Four of the eleven operations fail, and the other seven may do without them. -/
theorem transcript_without_failures_blinking :
    let decoder := freshDecoder usedPool
    let transcript := decoder.transcript skippingCodec impatientOperations
    let kept := transcript.filter fun exchange => !exchange.answer.isFailure
    skippingCodec.DependsOnRequest ∧
      (decoder.nextFrame skippingCodec).1.result = .error (.fault ⟨.noInputAttached, []⟩) ∧
      (decoder.nextFrame skippingCodec).2.SamePlayback decoder ∧
      transcript.length = 11 ∧ kept.length = 7 ∧ FailuresDropped transcript kept ∧
      decoder.transcript skippingCodec (kept.map (·.operation)) = kept ∧
      (decoder.run skippingCodec (kept.map (·.operation))).SamePlayback
        (decoder.run skippingCodec impatientOperations) := by
  intro decoder transcript kept
  have hdetached : (decoder.nextFrame skippingCodec).1.result =
      .error (.fault ⟨.noInputAttached, []⟩) := rfl
  have hdropped : FailuresDropped transcript kept := failuresDropped_filter transcript
  obtain ⟨hleft, hkept⟩ := Decoder.transcript_without_failures skippingCodec decoder
  obtain ⟨htranscript, -, hlast⟩ :=
    hkept inferInstance dependsOnRequest_skippingCodec impatientOperations kept hdropped
  exact ⟨dependsOnRequest_skippingCodec, hdetached, hleft _ hdetached, by decide +kernel,
    by decide +kernel, hdropped, htranscript, hlast⟩

end WebP
