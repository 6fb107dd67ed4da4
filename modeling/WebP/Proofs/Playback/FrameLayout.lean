import WebP.Proofs.Playback.History
import WebP.Proofs.Playback.Protocol
import WebP.Proofs.Playback.Transcript

/-!
# The layout of returned frames

Frames are due to be returned in the layout that was asked for last, unless the attached file has
alpha. A decoder settles its layout when a file is attached and when another default is asked for,
but not when the file is detached. So the layout that it shows is the due one, except between the
detaching of a file with alpha, in whatever way that is done, and the next settlement. In that time
no frames are returned, and those that are have the due layout always.

## Main definitions

* `WebP.LayoutCourse`: what a transcript tells of the layout.
* `WebP.LayoutCourse.due`, `WebP.LayoutCourse.IsStale`: the layout that frames are due to have, and
  the time in which the decoder shows another one.
* `WebP.Decoder.Settles`: a decoder has the layout that its transcript says.

## Main results

* `WebP.Decoder.Settles.apply`: what an operation preserves.
* `WebP.Decoder.layout_run_eq_due_iff`: when the layout is the due one.
-/

namespace WebP

/-! ### What a transcript tells of the layout -/

/-- What a transcript tells of the layout of frames. -/
structure LayoutCourse where
  /-- The default that was asked for last. -/
  requested : ColorLayout
  /-- The description of the attached file. -/
  attached : Option FileHeader := none
  /-- What was attached when the layout was settled last. -/
  settled : Option FileHeader := none

namespace LayoutCourse

/-- The layout that frames are due to have. -/
def due (course : LayoutCourse) : ColorLayout :=
  if course.attached.any FileHeader.hasAlpha then .argb8888 else course.requested

/-- A file with alpha has been detached, the layout has not been settled since, and it is not the
one that is asked for. -/
def IsStale (course : LayoutCourse) : Prop :=
  course.attached.isNone ∧ course.settled.any FileHeader.hasAlpha ∧ course.requested ≠ .argb8888

instance (course : LayoutCourse) : Decidable course.IsStale :=
  inferInstanceAs (Decidable (_ ∧ _))

/-- The course after one more exchange. -/
def after {ε : Type} (course : LayoutCourse) (exchange : Exchange ε) : LayoutCourse :=
  match exchange.operation, exchange.answer with
  | .attach header _, .attached outcome =>
    if outcome.result.isOk then
      { course with attached := some header, settled := some header }
    else
      { course with attached := none }
  | .clear, _ => { course with attached := none }
  | .setLayout layout, _ => { course with requested := layout, settled := course.attached }
  | _, _ => course

end LayoutCourse

/-- What is shown of a source has the layout of the buffer for it. -/
theorem Source.layout_view (source : Source) (sampleSize : Nat) (decoded output : PixelBuffer) :
    (source.view sampleSize decoded output).layout = output.layout := by
  unfold view
  cases source.compositor with
  | none => rfl
  | some compositor => rfl

namespace Decoder

variable {σ π ε : Type} {decoder : Decoder σ π} {course : LayoutCourse}

@[simp] theorem layout_advance (decoder : Decoder σ π) :
    decoder.advance.layout = decoder.layout := by
  rw [advance_eq]

/-- The decoder has the file and the layout that its transcript says. -/
structure Settles (course : LayoutCourse) (decoder : Decoder σ π) : Prop where
  header?_eq : decoder.header? = course.attached
  requested_eq : decoder.config.layout = course.requested
  layout_eq : decoder.layout = layoutFor course.settled course.requested
  /-- As long as a file is attached, the layout is settled for it. -/
  settled_eq : ∀ header ∈ course.attached, course.settled = some header

namespace Settles

/-- The layout is not stale as long as a file is attached. -/
theorem not_isStale_of_attached {header : FileHeader} (attached : course.attached = some header) :
    ¬ course.IsStale := by
  intro hstale
  have hnone := hstale.1
  rw [attached] at hnone
  exact Bool.false_ne_true hnone

/-- The layout in any state, by the course that led there. -/
theorem layout_eq_ite (h : decoder.Settles course) :
    decoder.layout = if course.IsStale then .argb8888 else course.due := by
  rw [h.layout_eq]
  cases hattached : course.attached with
  | some header =>
    rw [if_neg (not_isStale_of_attached hattached), h.settled_eq header hattached,
      LayoutCourse.due, hattached]
    rfl
  | none =>
    have hdue : course.due = course.requested := by
      rw [LayoutCourse.due, hattached]
      rfl
    rw [hdue]
    by_cases hstale : course.IsStale
    · rw [if_pos hstale]
      exact if_pos hstale.2.1
    · rw [if_neg hstale, layoutFor]
      split
      · -- the layout of a file with alpha was left, and is what is asked for
        rename_i halpha
        by_contra hother
        exact hstale ⟨Option.isNone_iff_eq_none.mpr hattached, halpha, fun hsame =>
          hother hsame.symm⟩
      · rfl

/-- A stale layout is never the due one. -/
theorem layout_eq_due_iff (h : decoder.Settles course) :
    decoder.layout = course.due ↔ ¬ course.IsStale := by
  rw [h.layout_eq_ite]
  by_cases hstale : course.IsStale
  · have hdue : course.due = course.requested := by
      rw [LayoutCourse.due, Option.isNone_iff_eq_none.mp hstale.1]
      rfl
    rw [if_pos hstale, hdue]
    exact iff_of_false (fun hsame => hstale.2.2 hsame.symm) (not_not_intro hstale)
  · rw [if_neg hstale]
    exact iff_of_true rfl hstale

theorem attached_eq (h : decoder.Settles course) {source : Source}
    (attached : decoder.source = some source) : course.attached = some source.header := by
  rw [← h.header?_eq, header?, attached, Option.map_some]

theorem of_new {config : DecoderConfig} {state : σ} {pool : π} {start : Decoder σ π}
    (new : new? state pool config = .ok start) : start.Settles { requested := config.layout } := by
  rw [eq_of_new new]
  exact ⟨rfl, rfl, rfl, fun _ hnone => nomatch hnone⟩

/-- Without a file the layout stays as it was settled. -/
theorem detach (h : decoder.Settles course) (status : Status) (pool : π) :
    ({ decoder with pool, source := none, index := none, status } : Decoder σ π).Settles
      { course with attached := none } :=
  ⟨rfl, h.requested_eq, h.layout_eq, fun _ hnone => nomatch hnone⟩

variable [BufferPool π] [ToString ε] {codec : Codec σ ε}

/-- **What an operation preserves.** -/
theorem apply (h : decoder.Settles course) (operation : Operation) :
    (decoder.apply codec operation).Settles
      (course.after (decoder.exchange codec operation)) := by
  cases operation with
  | advance =>
    refine ⟨?_, ?_, ?_, h.settled_eq⟩
    · exact (congrArg (Option.map Source.header) decoder.source_advance).trans h.header?_eq
    · exact (congrArg DecoderConfig.layout decoder.config_advance).trans h.requested_eq
    · exact decoder.layout_advance.trans h.layout_eq
  | nextFrame =>
    have hresponds := decoder.responds_nextFrame codec
    have hheader : (decoder.nextFrame codec).2.header? = decoder.header? := by
      have hfile := congrArg (Option.map Prod.fst) hresponds.file_eq
      rwa [Option.map_map, Option.map_map] at hfile
    exact ⟨hheader.trans h.header?_eq,
      (congrArg DecoderConfig.layout hresponds.config_eq).trans h.requested_eq,
      hresponds.layout_eq.trans h.layout_eq, h.settled_eq⟩
  | resetIndex => exact ⟨h.header?_eq, h.requested_eq, h.layout_eq, h.settled_eq⟩
  | releaseFrame frame => exact ⟨h.header?_eq, h.requested_eq, h.layout_eq, h.settled_eq⟩
  | clear => exact h.detach _ _
  | attach header data =>
    simp only [Decoder.apply, exchange, answer]
    rcases Nat.lt_or_ge data.length header.fileLength with short | complete
    · rw [decoder.attach_of_short short]
      exact h.detach _ _
    · rw [decoder.attach_of_complete complete]
      refine ⟨rfl, h.requested_eq, ?_, ?_⟩
      · exact congrArg (layoutFor (some header)) h.requested_eq
      · rintro _ ⟨⟩
        rfl
  | setLayout layout =>
    refine ⟨h.header?_eq, rfl, ?_, fun header hheader => hheader⟩
    exact congrArg (layoutFor · layout) h.header?_eq

/-- A frame that is returned has the layout of the decoder. -/
theorem layout_nextFrame [LawfulBufferPool π] (h : decoder.Settles course) {output : PixelBuffer}
    (returned : (decoder.nextFrame codec).1.result = .ok output) : output.layout = course.due := by
  have hresponds := decoder.responds_nextFrame codec
  revert hresponds
  generalize decoder.nextFrame codec = step at returned ⊢
  obtain ⟨outcome, next⟩ := step
  intro hresponds
  cases hresponds with
  | detached => cases returned
  | unselected => cases returned
  | undecoded => cases returned
  | shown source frame image state attached =>
    cases returned
    rw [Source.layout_view, (decoder.hasShape_outputFor source frame).layout_eq]
    exact h.layout_eq_due_iff.mpr (not_isStale_of_attached (h.attached_eq attached))

end Settles

section Runs

variable [BufferPool π] [LawfulBufferPool π] [ToString ε]

/-- **When the layout is the due one.** Make a decoder and ask it for anything. The layout that it
shows is the one that frames are due to have exactly if it is not stale: a file with alpha leaves
its layout behind when it is detached, until another file is attached or a default is asked for.
All frames that are returned have the due layout. -/
theorem layout_run_eq_due_iff (codec : Codec σ ε) {config : DecoderConfig} {state : σ} {pool : π}
    {start : Decoder σ π} (new : new? state pool config = .ok start)
    (operations : List Operation) :
    let decoder := start.run codec operations
    let course := (start.transcript codec operations).foldl LayoutCourse.after
      { requested := config.layout }
    decoder.header? = course.attached ∧
      (decoder.layout = course.due ↔ ¬ course.IsStale) ∧
      (course.IsStale → decoder.layout = .argb8888) ∧
      ∀ output, (decoder.nextFrame codec).1.result = .ok output → output.layout = course.due := by
  intro decoder course
  have hsettles : decoder.Settles course := by
    refine run_induction (R := fun decoder course => decoder.Settles course) operations ?_
      (.of_new new)
    exact fun operation _ _ _ h => h.apply operation
  refine ⟨hsettles.header?_eq, hsettles.layout_eq_due_iff, ?_, ?_⟩
  · intro hstale
    rw [hsettles.layout_eq_ite, if_pos hstale]
  · exact fun _ => hsettles.layout_nextFrame

end Runs

end Decoder

/-! ### A file with alpha -/

/-- A still image of one pixel that may be transparent. -/
def translucent : Bytes :=
  (ChunkHeader.mk .riff 18).encode ++ FourCC.webp.bytes ++
    (ChunkHeader.mk .vp8l 6).encode ++ [0x2f, 0, 0, 0, 0x10, 0]

def translucentHeader : FileHeader := (parse {} translucent).result.toOption.getD default

theorem parse_translucent : (parse {} translucent).result = .ok translucentHeader :=
  Outcome.result_eq_ok_getD (by decide +kernel)

/-- The settings of a decoder that returns frames without alpha. -/
def opaqueConfig : DecoderConfig := { layout := .rgb565 }

/-- A new decoder with these settings. -/
def opaqueDecoder : Decoder Nat HeapPool where
  codec := 0
  pool := {}
  config := opaqueConfig
  layout := .rgb565

/-- The image is attached and detached, and then an animation without alpha is attached. -/
def relayingOperations : List Operation :=
  [.attach translucentHeader translucent, .clear, .attach blinkingHeader blinking, .advance]

/-- The image is stale once it is detached, and no longer when the animation is attached. -/
theorem layout_run_eq_due_iff_relaying :
    let decoder := opaqueDecoder.run countingCodec relayingOperations
    let course := (opaqueDecoder.transcript countingCodec relayingOperations).foldl
      LayoutCourse.after { requested := opaqueConfig.layout }
    Decoder.new? 0 {} opaqueConfig = .ok opaqueDecoder ∧
      ((opaqueDecoder.transcript countingCodec (relayingOperations.take 2)).foldl
        LayoutCourse.after { requested := opaqueConfig.layout }).IsStale ∧
      (opaqueDecoder.run countingCodec (relayingOperations.take 2)).layout = .argb8888 ∧
      course.due = .rgb565 ∧ ¬ course.IsStale ∧ decoder.layout = course.due ∧
      ∃ output, (decoder.nextFrame countingCodec).1.result = .ok output ∧
        output.layout = course.due := by
  have hnew : Decoder.new? 0 {} opaqueConfig = .ok opaqueDecoder := rfl
  have hstale : ((opaqueDecoder.transcript countingCodec (relayingOperations.take 2)).foldl
      LayoutCourse.after { requested := opaqueConfig.layout }).IsStale := by decide +kernel
  have hcurrent : ¬ ((opaqueDecoder.transcript countingCodec relayingOperations).foldl
      LayoutCourse.after { requested := opaqueConfig.layout }).IsStale := by decide +kernel
  have hreturned : ((opaqueDecoder.run countingCodec relayingOperations).nextFrame
      countingCodec).1.result.toOption.isSome := by decide +kernel
  obtain ⟨-, -, hleft, -⟩ :=
    Decoder.layout_run_eq_due_iff countingCodec hnew (relayingOperations.take 2)
  obtain ⟨-, hlayout, -, hframes⟩ :=
    Decoder.layout_run_eq_due_iff countingCodec hnew relayingOperations
  obtain ⟨output, houtput⟩ := Option.isSome_iff_exists.mp hreturned
  have hresult := Outcome.toOption_result_eq_some_iff.mp houtput
  exact ⟨hnew, hstale, hleft hstale, by decide +kernel, hcurrent, hlayout.mpr hcurrent, output,
    hresult, hframes output hresult⟩

/-- A file with alpha is attached, and detached. -/
def strandingOperations : List Operation := [.attach translucentHeader translucent, .clear]

theorem attachesParsed_strandingOperations :
    ∀ operation ∈ strandingOperations, operation.AttachesParsed :=
  List.forall_mem_cons.mpr
    ⟨⟨{}, translucent, parse_translucent⟩, List.forall_mem_singleton.mpr trivial⟩

/-- The layout is not always the due one, even if only files that were parsed are attached: after a
file with alpha was detached, a decoder that was made to return frames without alpha shows a layout
with alpha. -/
theorem not_forall_layout_run_eq_due :
    ¬ ∀ (codec : Codec Nat String) (config : DecoderConfig) (pool : HeapPool)
      (start : Decoder Nat HeapPool) (operations : List Operation),
      Decoder.new? 0 pool config = .ok start →
      (∀ operation ∈ operations, operation.AttachesParsed) →
      (start.run codec operations).layout =
        ((start.transcript codec operations).foldl LayoutCourse.after
          { requested := config.layout }).due := by
  intro hall
  have hdue := hall countingCodec opaqueConfig {} opaqueDecoder strandingOperations rfl
    attachesParsed_strandingOperations
  exact absurd hdue (by decide +kernel)

end WebP
