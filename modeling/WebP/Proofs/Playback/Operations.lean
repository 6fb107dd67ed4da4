import WebP.Playback.Decoder
import WebP.Proofs.Playback.Drawing

/-!
# What the operations do

Each operation is told once, as a whole: what it answers, what becomes of the decoder, and which
buffers are taken from the pool and given back to it. A request for a frame ends in one of four
ways: no file is attached, no frame is selected, the codec fails, or the frame is shown.

## Main definitions

* `WebP.Source.draw`, `WebP.Source.view`: drawing and showing a frame without a pool.
* `WebP.Decoder.decoded`: what the codec makes of a frame.
* `WebP.Decoder.Responds`: the four ways in which a request for a frame ends.

## Main results

* `WebP.Decoder.responds_nextFrame`: there are no other ways.
* `WebP.Decoder.attach_of_short`, `WebP.Decoder.attach_of_complete`: when a file is attached.
-/

namespace WebP

open BufferPool (obtain release)

/-! ### Showing a frame -/

namespace Source

/-- The source with one more frame on its canvas. -/
def draw (source : Source) (place : Placement) (decoded : PixelBuffer) : Source :=
  { source with compositor := source.compositor.map (·.draw place decoded) }

@[simp] theorem header_draw (source : Source) (place : Placement) (decoded : PixelBuffer) :
    (source.draw place decoded).header = source.header := rfl

@[simp] theorem data_draw (source : Source) (place : Placement) (decoded : PixelBuffer) :
    (source.draw place decoded).data = source.data := rfl

/-- What is shown of a source whose newest frame has the pixels `decoded`. -/
def view (source : Source) (sampleSize : Nat) (decoded output : PixelBuffer) : PixelBuffer :=
  match source.compositor with
  | some compositor => compositor.currentCanvas.copyInto output
  | none => decoded.downsampleInto sampleSize output

/-- What is logged of a frame that was drawn. -/
def drawingLog (source : Source) (place : Placement) : List Event :=
  source.compositor.elim [] fun _ => [.composited place]

/-- A view does not depend on what the buffer for it held before. -/
theorem view_congr (source : Source) (sampleSize : Nat) (decoded : PixelBuffer)
    {first second : PixelBuffer} {width height : Nat} {layout : ColorLayout}
    (h₁ : first.HasShape width height layout) (h₂ : second.HasShape width height layout) :
    source.view sampleSize decoded first = source.view sampleSize decoded second := by
  unfold view
  cases source.compositor with
  | some compositor => exact Canvas.copyInto_congr _ (h₁.layout_eq.trans h₂.layout_eq.symm)
  | none => exact PixelBuffer.downsampleInto_congr decoded sampleSize h₁ h₂

section Pool

variable {π : Type} [BufferPool π]

/-- The pool after a canvas was taken from it, if the file needs one and has none. -/
def takeCanvas (source : Source) (pool : π) : π :=
  source.compositor.elim pool fun compositor => (compositor.obtainCanvas pool).2

/-- A frame is presented by drawing it; no more than a canvas is taken for it. -/
theorem present_eq (source : Source) (sampleSize : Nat) (place : Placement)
    (decoded output : PixelBuffer) (pool : π) :
    source.present sampleSize place decoded output pool =
      ((source.draw place decoded).view sampleSize decoded output, source.draw place decoded,
        source.takeCanvas pool, (source.draw place decoded).drawingLog place) := by
  obtain ⟨header, data, compositor⟩ := source
  cases compositor with
  | none => rfl
  | some compositor =>
    simp only [present, draw, view, drawingLog, takeCanvas, Option.map_some, Option.elim_some,
      Compositor.compositor_compose, Compositor.output_compose]
    rfl

end Pool

end Source

namespace Decoder

section Operations

variable {σ π : Type}

/-! ### Selecting a frame -/

/-- The frame that comes after the selected one, if a file is attached. -/
theorem advance_eq (decoder : Decoder σ π) :
    decoder.advance =
      { decoder with
        index := decoder.header?.elim decoder.index fun header =>
          if header.frameCount = 0 then none
          else some (decoder.index.elim 0 fun index => (index + 1) % header.frameCount) } := by
  obtain ⟨_, _, _, source, index, _, _⟩ := decoder
  cases source with
  | none => rfl
  | some source =>
    cases index with
    | none => rfl
    | some index => rfl

@[simp] theorem config_advance (decoder : Decoder σ π) :
    decoder.advance.config = decoder.config := by
  rw [advance_eq]

@[simp] theorem source_advance (decoder : Decoder σ π) :
    decoder.advance.source = decoder.source := by
  rw [advance_eq]

@[simp] theorem status_advance (decoder : Decoder σ π) :
    decoder.advance.status = decoder.status := by
  rw [advance_eq]

@[simp] theorem pool_advance (decoder : Decoder σ π) : decoder.advance.pool = decoder.pool := by
  rw [advance_eq]

variable [BufferPool π]

/-! ### Attaching a file -/

/-- Of a file that is not all there nothing is attached, and what was attached before no longer
is. -/
theorem attach_of_short (decoder : Decoder σ π) {header : FileHeader} {data : Bytes}
    (short : data.length < header.fileLength) :
    decoder.attach header data =
      (.fail .noInputAttached [.inputShorterThanFile],
        { decoder.clear with status := .openError }) := by
  rw [attach, if_pos short]

/-- A file that is all there is attached in the place of what was attached before. -/
theorem attach_of_complete (decoder : Decoder σ π) {header : FileHeader} {data : Bytes}
    (complete : header.fileLength ≤ data.length) :
    decoder.attach header data =
      (.emit (.attached header.canvas header.frameCount decoder.config.sampleSize
          (layoutFor (some header) decoder.config.layout)),
        { decoder.clear with
          source := some ⟨header, data, compositorFor decoder.config header⟩
          layout := layoutFor (some header) decoder.config.layout }) := by
  rw [attach, if_neg (Nat.not_lt.mpr complete)]
  rfl

@[simp] theorem codec_attach (decoder : Decoder σ π) (header : FileHeader) (data : Bytes) :
    (decoder.attach header data).2.codec = decoder.codec := by
  rcases Nat.lt_or_ge data.length header.fileLength with short | complete
  · rw [decoder.attach_of_short short]
    rfl
  · rw [decoder.attach_of_complete complete]
    rfl

@[simp] theorem pool_attach (decoder : Decoder σ π) (header : FileHeader) (data : Bytes) :
    (decoder.attach header data).2.pool = decoder.clear.pool := by
  rcases Nat.lt_or_ge data.length header.fileLength with short | complete
  · rw [decoder.attach_of_short short]
  · rw [decoder.attach_of_complete complete]

end Operations

section Requests

variable {σ π ε : Type} [BufferPool π] [ToString ε]

/-! ### Decoding a frame -/

/-- The buffer that the codec is handed for a request. -/
def blankFor (decoder : Decoder σ π) (request : DecodeRequest) : PixelBuffer × π :=
  obtain decoder.pool request.size.width request.size.height .argb8888

/-- What the codec makes of a frame of a file in a buffer from the pool. -/
def decoded (codec : Codec σ ε) (decoder : Decoder σ π) (data : Bytes) (frame : Frame) :
    Except ε Unit × PixelBuffer × σ :=
  let request := DecodeRequest.ofFrame frame data
  codec.decode decoder.codec request (decoder.blankFor request).1

/-- The buffer that a decoded frame is shown in. -/
def outputFor (decoder : Decoder σ π) (source : Source) (frame : Frame) : PixelBuffer × π :=
  let size := downsampledSize source.header.canvas decoder.config.sampleSize
  obtain (decoder.blankFor (.ofFrame frame source.data)).2 size.width size.height decoder.layout

omit [ToString ε] in
theorem hasShape_blankFor [LawfulBufferPool π] (decoder : Decoder σ π) (request : DecodeRequest) :
    (decoder.blankFor request).1.HasShape request.size.width request.size.height .argb8888 :=
  LawfulBufferPool.obtain_hasShape _ _ _ _

theorem hasShape_outputFor [LawfulBufferPool π] (decoder : Decoder σ π) (source : Source)
    (frame : Frame) :
    (decoder.outputFor source frame).1.HasShape
      (downsampledSize source.header.canvas decoder.config.sampleSize).width
      (downsampledSize source.header.canvas decoder.config.sampleSize).height decoder.layout :=
  LawfulBufferPool.obtain_hasShape _ _ _ _

/-- Decoding a frame, with names for the buffers that are taken on the way. -/
theorem decodeFrame_eq (codec : Codec σ ε) (decoder : Decoder σ π) (source : Source)
    (frame : Frame) :
    decoder.decodeFrame codec source frame =
      let (result, image, state) := decoder.decoded codec source.data frame
      match result with
      | .error e =>
        (⟨.error (.codec e), [.decodeFailed frame.index (toString e)]⟩,
          { decoder with
            codec := state
            pool := release (decoder.blankFor (.ofFrame frame source.data)).2 image
            status := .bitstreamError })
      | .ok () =>
        let (output, source, pool, log) := source.present decoder.config.sampleSize
          frame.toPlacement image (decoder.outputFor source frame).1
          (decoder.outputFor source frame).2
        (⟨.ok output, log⟩,
          { decoder with
            codec := state
            pool := release pool image
            source := some source
            status := .ok }) := rfl

/-- A frame that the codec cannot decode leaves the file as it was. -/
theorem decodeFrame_of_error {codec : Codec σ ε} {decoder : Decoder σ π} {source : Source}
    {frame : Frame} {e : ε} {image : PixelBuffer} {state : σ}
    (failed : decoder.decoded codec source.data frame = (.error e, image, state)) :
    ∃ pool, decoder.decodeFrame codec source frame =
      (⟨.error (.codec e), [.decodeFailed frame.index (toString e)]⟩,
        { decoder with codec := state, pool := pool, status := .bitstreamError }) := by
  rw [decodeFrame_eq, failed]
  exact ⟨_, rfl⟩

/-- A frame that the codec decodes is drawn, and shown in a buffer of the size and the layout
for it. -/
theorem decodeFrame_of_ok {codec : Codec σ ε} {decoder : Decoder σ π} {source : Source}
    {frame : Frame} {image : PixelBuffer} {state : σ}
    (succeeded : decoder.decoded codec source.data frame = (.ok (), image, state)) :
    ∃ pool, decoder.decodeFrame codec source frame =
      (⟨.ok ((source.draw frame.toPlacement image).view decoder.config.sampleSize image
            (decoder.outputFor source frame).1),
          (source.draw frame.toPlacement image).drawingLog frame.toPlacement⟩,
        { decoder with
          codec := state
          pool := pool
          source := some (source.draw frame.toPlacement image)
          status := .ok }) := by
  rw [decodeFrame_eq, succeeded]
  simp only [Source.present_eq]
  exact ⟨_, rfl⟩

/-- The selected frame of the attached file is the one that is decoded. -/
theorem nextFrame_of_frame {codec : Codec σ ε} {decoder : Decoder σ π} {source : Source}
    {frame : Frame} (attached : decoder.source = some source)
    (selected : decoder.index.bind source.header.frame? = some frame) :
    decoder.nextFrame codec = decoder.decodeFrame codec source frame := by
  simp only [nextFrame, attached, selected]

/-! ### Asking for a frame -/

/-- A request for a frame is answered with an outcome and leaves a decoder behind. -/
inductive Responds (codec : Codec σ ε) (decoder : Decoder σ π) :
    Outcome (Failure ε) PixelBuffer → Decoder σ π → Prop
  | detached (attached : decoder.source = none) :
      Responds codec decoder (.error (.fault ⟨.noInputAttached, []⟩))
        { decoder with status := .openError }
  | unselected (source : Source) (attached : decoder.source = some source)
      (selected : decoder.index.bind source.header.frame? = none) :
      Responds codec decoder (.error (.fault ⟨.noFrameSelected, [.notAdvanced]⟩))
        { decoder with status := .parseError }
  | undecoded (source : Source) (frame : Frame) (e : ε) (image : PixelBuffer) (state : σ)
      (attached : decoder.source = some source)
      (selected : decoder.index.bind source.header.frame? = some frame)
      (failed : decoder.decoded codec source.data frame = (.error e, image, state)) :
      Responds codec decoder
        ⟨.error (.codec e), [.decodeFailed frame.index (toString e)]⟩
        { decoder with
          codec := state
          pool := release (decoder.blankFor (.ofFrame frame source.data)).2 image
          status := .bitstreamError }
  | shown (source : Source) (frame : Frame) (image : PixelBuffer) (state : σ)
      (attached : decoder.source = some source)
      (selected : decoder.index.bind source.header.frame? = some frame)
      (succeeded : decoder.decoded codec source.data frame = (.ok (), image, state)) :
      Responds codec decoder
        ⟨.ok ((source.draw frame.toPlacement image).view decoder.config.sampleSize image
            (decoder.outputFor source frame).1),
          (source.draw frame.toPlacement image).drawingLog frame.toPlacement⟩
        { decoder with
          codec := state
          pool := release (source.takeCanvas (decoder.outputFor source frame).2) image
          source := some (source.draw frame.toPlacement image)
          status := .ok }

/-- **The ways of a request.** A request for a frame ends in one of the four ways. -/
theorem responds_nextFrame (codec : Codec σ ε) (decoder : Decoder σ π) :
    decoder.Responds codec (decoder.nextFrame codec).1 (decoder.nextFrame codec).2 := by
  cases attached : decoder.source with
  | none =>
    have hnext : decoder.Responds codec _ _ := .detached attached
    simpa only [nextFrame, attached] using hnext
  | some source =>
    cases selected : decoder.index.bind source.header.frame? with
    | none =>
      have hnext : decoder.Responds codec _ _ := .unselected source attached selected
      simpa only [nextFrame, attached, selected] using hnext
    | some frame =>
      rw [nextFrame_of_frame attached selected, decodeFrame_eq]
      rcases hdecoded : decoder.decoded codec source.data frame with ⟨e | _, image, state⟩
      · exact .undecoded source frame e image state attached selected hdecoded
      · simp only [Source.present_eq]
        exact .shown source frame image state attached selected hdecoded

namespace Responds

variable {codec : Codec σ ε} {decoder next : Decoder σ π}
  {outcome : Outcome (Failure ε) PixelBuffer}

/-- A request changes nothing but the state of the codec, the pool, the canvas and the status. -/
theorem exists_eq (h : decoder.Responds codec outcome next) :
    ∃ state pool source status, next =
      { decoder with codec := state, pool := pool, source := source, status := status } := by
  cases h with
  | detached => exact ⟨_, _, _, _, rfl⟩
  | unselected => exact ⟨_, _, _, _, rfl⟩
  | undecoded => exact ⟨_, _, _, _, rfl⟩
  | shown => exact ⟨_, _, _, _, rfl⟩

theorem config_eq (h : decoder.Responds codec outcome next) : next.config = decoder.config := by
  obtain ⟨_, _, _, _, rfl⟩ := h.exists_eq
  rfl

theorem index_eq (h : decoder.Responds codec outcome next) : next.index = decoder.index := by
  obtain ⟨_, _, _, _, rfl⟩ := h.exists_eq
  rfl

theorem layout_eq (h : decoder.Responds codec outcome next) : next.layout = decoder.layout := by
  obtain ⟨_, _, _, _, rfl⟩ := h.exists_eq
  rfl

/-- A request leaves the file as it was or draws a frame on its canvas. -/
theorem source_cases (h : decoder.Responds codec outcome next) :
    next.source = decoder.source ∨ ∃ source place image,
      decoder.source = some source ∧ next.source = some (source.draw place image) := by
  cases h with
  | detached => exact .inl rfl
  | unselected => exact .inl rfl
  | undecoded => exact .inl rfl
  | shown source frame image state attached => exact .inr ⟨source, _, image, attached, rfl⟩

/-- A request that fails leaves the file and its canvas as they were. -/
theorem source_eq_of_error {failure : Failure ε} (h : decoder.Responds codec outcome next)
    (failed : outcome.result = .error failure) : next.source = decoder.source := by
  cases h with
  | detached => rfl
  | unselected => rfl
  | undecoded => rfl
  | shown => cases failed

/-- Whatever comes of a request, the same file stays attached. -/
theorem file_eq (h : decoder.Responds codec outcome next) :
    next.source.map (fun source => (source.header, source.data)) =
      decoder.source.map fun source => (source.header, source.data) := by
  obtain hsame | ⟨source, place, image, hattached, hdrawn⟩ := h.source_cases
  · rw [hsame]
  · rw [hattached, hdrawn]
    rfl

/-- The decoder has the status that goes with the outcome. -/
theorem status_eq (h : decoder.Responds codec outcome next) :
    next.status =
      match outcome.result with
      | .ok _ => .ok
      | .error failure => failure.status := by
  cases h with
  | detached => rfl
  | unselected => rfl
  | undecoded => rfl
  | shown => rfl

end Responds

end Requests

end Decoder

end WebP
