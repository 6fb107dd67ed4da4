import Mathlib.Data.List.Forall2
import WebP.Proofs.Outcome.SameUpTo
import WebP.Proofs.Playback.History
import WebP.Proofs.Playback.Sampling

/-!
# Playing a file in two sizes

Two decoders that are asked for the same play a file in its full size and made smaller. If the
edges of every frame of the file fall between the cells of the smaller canvas, then at each step
the smaller frame has the pixels of the full one at multiples of the sample size, and so have the
canvases. In between the decoders may play other files, for which nothing is said.

## Main definitions

* `WebP.FileHeader.AlignedTo`: the edges of all frames fall between the cells.
* `WebP.Operation.Same`: operations that ask for the same.
* `WebP.Decoder.IsSampleOf`: decoders that play the same in two sizes.

## Main results

* `WebP.Decoder.IsSampleOf.nextFrame`, `WebP.Decoder.IsSampleOf.apply`: what a step preserves.
* `WebP.Decoder.nextFrame_run_isSampleOf`: frames and canvases after any operations.
-/

namespace WebP

/-! ### Files and sources -/

/-- The canvas is not narrower or lower than the sample size, and the edges of all frames fall
between the cells. -/
@[mk_iff]
structure FileHeader.AlignedTo (header : FileHeader) (sampleSize : Nat) : Prop where
  width_ge : sampleSize ≤ header.canvas.width
  height_ge : sampleSize ≤ header.canvas.height
  frames : ∀ frame ∈ header.frames, frame.rect.AlignedTo header.canvas sampleSize

instance (header : FileHeader) (sampleSize : Nat) : Decidable (header.AlignedTo sampleSize) :=
  decidable_of_iff _ (header.alignedTo_iff sampleSize).symm

namespace FileHeader.AlignedTo

variable {header : FileHeader} {sampleSize : Nat}

theorem downsampledSize_eq (aligned : header.AlignedTo sampleSize) (positive : 0 < sampleSize) :
    downsampledSize header.canvas sampleSize =
      ⟨header.canvas.width / sampleSize, header.canvas.height / sampleSize⟩ :=
  downsampledSize_of_le positive aligned.width_ge aligned.height_ge

theorem downsampledSize_one (aligned : header.AlignedTo sampleSize) (positive : 0 < sampleSize) :
    downsampledSize header.canvas 1 = header.canvas :=
  WebP.downsampledSize_one (Nat.le_trans positive aligned.width_ge)
    (Nat.le_trans positive aligned.height_ge)

end FileHeader.AlignedTo

/-- The compositors draw the same, on a canvas of full size and on one made smaller. -/
structure Compositor.IsSampleOf (small large : Compositor) (canvas : Size) (sampleSize : Nat) :
    Prop where
  small_size : small.size = ⟨canvas.width / sampleSize, canvas.height / sampleSize⟩
  small_sampleSize : small.sampleSize = sampleSize
  large_size : large.size = canvas
  large_sampleSize : large.sampleSize = 1
  background_eq : small.background = large.background
  canvas : Option.Rel (fun first second => first.IsSampleOf second canvas sampleSize)
    small.canvas large.canvas

/-- The sources hold the same file. If the edges of its frames fall between the cells, their
canvases are related. -/
structure Source.IsSampleOf (small large : Source) (sampleSize : Nat) : Prop where
  header_eq : small.header = large.header
  data_eq : small.data = large.data
  compositor : large.header.AlignedTo sampleSize →
    Option.Rel (fun first second => first.IsSampleOf second large.header.canvas sampleSize)
      small.compositor large.compositor

/-- The buffers show the same, one as large as the canvas and one made smaller. -/
structure ShownAlike (canvas : Size) (sampleSize : Nat) (layout : ColorLayout)
    (small large : PixelBuffer) : Prop where
  small_shape : small.HasShape (canvas.width / sampleSize) (canvas.height / sampleSize) layout
  large_shape : large.HasShape canvas.width canvas.height layout
  isSampleOf : small.IsSampleOf large sampleSize

namespace Compositor.IsSampleOf

variable {small large : Compositor} {canvas : Size} {sampleSize : Nat}

theorem currentCanvas (h : small.IsSampleOf large canvas sampleSize) :
    small.currentCanvas.IsSampleOf large.currentCanvas canvas sampleSize := by
  have hcanvas := h.canvas
  rw [Compositor.currentCanvas, Compositor.currentCanvas, h.small_size, h.small_sampleSize,
    h.large_size, h.large_sampleSize]
  generalize small.canvas = first at hcanvas
  generalize large.canvas = second at hcanvas
  cases hcanvas with
  | none => exact Canvas.isSampleOf_blank canvas sampleSize
  | some hsample => exact hsample

theorem draw (h : small.IsSampleOf large canvas sampleSize) (positive : 0 < sampleSize)
    {place : Placement} (aligned : place.rect.AlignedTo canvas sampleSize)
    (decoded : PixelBuffer) :
    (small.draw place decoded).IsSampleOf (large.draw place decoded) canvas sampleSize := by
  refine ⟨h.small_size, h.small_sampleSize, h.large_size, h.large_sampleSize, h.background_eq, ?_⟩
  simp only [Compositor.draw, h.background_eq]
  exact .some (h.currentCanvas.addFrame positive large.background aligned decoded)

end Compositor.IsSampleOf

namespace Source.IsSampleOf

variable {small large : Source} {sampleSize : Nat}

/-- Sources stay related if a frame of their file is drawn on both. -/
theorem draw (h : small.IsSampleOf large sampleSize) (positive : 0 < sampleSize) {frame : Frame}
    (member : frame ∈ large.header.frames) (image : PixelBuffer) :
    (small.draw frame.toPlacement image).IsSampleOf (large.draw frame.toPlacement image)
      sampleSize := by
  refine ⟨h.header_eq, h.data_eq, fun aligned => ?_⟩
  have hcompositor := h.compositor aligned
  have hrect := aligned.frames frame member
  rw [Source.draw, Source.draw]
  generalize small.compositor = first at hcompositor
  generalize large.compositor = second at hcompositor
  cases hcompositor with
  | none => exact .none
  | some hsample => exact .some (hsample.draw positive hrect image)

/-- Sources that are related are viewed alike. -/
theorem view (h : small.IsSampleOf large sampleSize) (aligned : large.header.AlignedTo sampleSize)
    {layout : ColorLayout} (image : PixelBuffer) {first second : PixelBuffer}
    (first_shape : first.HasShape (large.header.canvas.width / sampleSize)
      (large.header.canvas.height / sampleSize) layout)
    (second_shape : second.HasShape large.header.canvas.width large.header.canvas.height layout) :
    ShownAlike large.header.canvas sampleSize layout (small.view sampleSize image first)
      (large.view 1 image second) := by
  have hcompositor := h.compositor aligned
  unfold Source.view
  generalize small.compositor = compositor₁ at hcompositor
  generalize large.compositor = compositor₂ at hcompositor
  cases hcompositor with
  | none =>
    exact ⟨first_shape.downsampleInto image sampleSize, second_shape.downsampleInto image 1,
      PixelBuffer.isSampleOf_downsampleInto first_shape second_shape image⟩
  | some hsample =>
    have hcanvas := hsample.currentCanvas
    refine ⟨?_, ?_, hcanvas.copyInto (first_shape.layout_eq.trans second_shape.layout_eq.symm)⟩
    · rw [← first_shape.layout_eq]
      exact hcanvas.small_shape.copyInto first
    · rw [← second_shape.layout_eq]
      exact hcanvas.large_shape.copyInto second

/-- A file is attached with compositors that draw alike. -/
theorem compositorFor {config : DecoderConfig} (positive : 0 < sampleSize)
    (full : config.sampleSize = 1) (header : FileHeader) (data : Bytes) :
    (Source.mk header data (Decoder.compositorFor { config with sampleSize } header)).IsSampleOf
      ⟨header, data, Decoder.compositorFor config header⟩ sampleSize := by
  refine ⟨rfl, rfl, fun aligned => ?_⟩
  unfold Decoder.compositorFor
  cases header.isAnimated with
  | false => exact .none
  | true =>
    refine .some ⟨aligned.downsampledSize_eq positive, Nat.max_eq_left positive, ?_, ?_, rfl, .none⟩
    · rw [full]
      exact aligned.downsampledSize_one positive
    · rw [full]
      rfl

end Source.IsSampleOf

/-! ### Decoders -/

/-- The operations ask for the same; each decoder is given back frames of its own. -/
inductive Operation.Same : Operation → Operation → Prop
  | refl (operation : Operation) : Same operation operation
  | releaseFrame (small large : PixelBuffer) : Same (.releaseFrame small) (.releaseFrame large)

namespace Decoder

variable {σ₁ σ₂ π₁ π₂ ε : Type}

/-- The decoders play the same, one in full size and one made smaller. -/
structure IsSampleOf (Related : σ₁ → σ₂ → Prop) (sampleSize : Nat) (small : Decoder σ₁ π₁)
    (large : Decoder σ₂ π₂) : Prop where
  codec : Related small.codec large.codec
  config_eq : small.config = { large.config with sampleSize }
  full : large.config.sampleSize = 1
  index_eq : small.index = large.index
  layout_eq : small.layout = large.layout
  source : Option.Rel (fun first second => first.IsSampleOf second sampleSize)
    small.source large.source

/-- The canvas of the attached file, if a frame has been drawn on it. -/
def canvas? (decoder : Decoder σ₁ π₁) : Option Canvas :=
  (decoder.source.bind (·.compositor)).bind (·.canvas)

namespace IsSampleOf

variable {Related : σ₁ → σ₂ → Prop} {sampleSize : Nat} {small : Decoder σ₁ π₁}
  {large : Decoder σ₂ π₂} {header : FileHeader} {data : Bytes}

/-- Decoders that play the same have the same file attached. -/
theorem source_cases (h : small.IsSampleOf Related sampleSize large) :
    (small.source = none ∧ large.source = none) ∨
      ∃ source₁ source₂, small.source = some source₁ ∧ large.source = some source₂ ∧
        source₁.IsSampleOf source₂ sampleSize := by
  have hsource := h.source
  generalize small.source = first at hsource
  generalize large.source = second at hsource
  cases hsource with
  | none => exact .inl ⟨rfl, rfl⟩
  | some hsample => exact .inr ⟨_, _, rfl, rfl, hsample⟩

theorem header?_eq (h : small.IsSampleOf Related sampleSize large) :
    small.header? = large.header? := by
  rw [header?, header?]
  obtain ⟨hsmall, hlarge⟩ | ⟨source₁, source₂, hsmall, hlarge, hsample⟩ := h.source_cases
  · rw [hsmall, hlarge]
  · rw [hsmall, hlarge, Option.map_some, Option.map_some, hsample.header_eq]

/-- The same file is attached to both decoders. -/
theorem plays (h : small.IsSampleOf Related sampleSize large) (hplays : large.Plays header data) :
    small.Plays header data := by
  rw [Plays] at hplays ⊢
  obtain ⟨hsmall, hlarge⟩ | ⟨source₁, source₂, hsmall, hlarge, hsample⟩ := h.source_cases
  · rw [hsmall, ← hlarge, hplays]
  · rw [hsmall, Option.map_some, hsample.header_eq, hsample.data_eq, ← hplays, hlarge,
      Option.map_some]

/-- If the file is aligned its canvases are related. -/
theorem rel_canvas? (h : small.IsSampleOf Related sampleSize large)
    (hplays : large.Plays header data) (aligned : header.AlignedTo sampleSize) :
    Option.Rel (fun first second => first.IsSampleOf second header.canvas sampleSize)
      small.canvas? large.canvas? := by
  obtain ⟨hsmall, hlarge⟩ | ⟨source₁, source₂, hsmall, hlarge, hsample⟩ := h.source_cases
  · rw [canvas?, canvas?, hsmall, hlarge]
    exact .none
  · rw [Plays, hlarge] at hplays
    cases hplays
    have hcompositor := hsample.compositor aligned
    rw [canvas?, canvas?, hsmall, hlarge, Option.bind_some, Option.bind_some]
    generalize source₁.compositor = first at hcompositor
    generalize source₂.compositor = second at hcompositor
    cases hcompositor with
    | none => exact .none
    | some hcanvas => exact hcanvas.canvas

theorem advance (h : small.IsSampleOf Related sampleSize large) :
    small.advance.IsSampleOf Related sampleSize large.advance := by
  have hsource := h.source
  obtain ⟨hsmall, hlarge⟩ | ⟨source₁, source₂, hsmall, hlarge, hsample⟩ := h.source_cases
  · simp only [Decoder.advance, hsmall, hlarge]
    exact h
  · rw [hsmall, hlarge] at hsource
    simp only [Decoder.advance, hsmall, hlarge, hsample.header_eq, h.index_eq]
    exact ⟨h.codec, h.config_eq, h.full, rfl, h.layout_eq, hsource⟩

theorem setLayout (h : small.IsSampleOf Related sampleSize large) (layout : ColorLayout) :
    (small.setLayout layout).IsSampleOf Related sampleSize (large.setLayout layout) := by
  refine ⟨h.codec, ?_, h.full, h.index_eq, ?_, h.source⟩
  · simp only [Decoder.setLayout, h.config_eq]
  · simp only [Decoder.setLayout, h.header?_eq]

variable [BufferPool π₁] [BufferPool π₂]

theorem clear (h : small.IsSampleOf Related sampleSize large) :
    small.clear.IsSampleOf Related sampleSize large.clear :=
  ⟨h.codec, h.config_eq, h.full, rfl, h.layout_eq, .none⟩

theorem attach (h : small.IsSampleOf Related sampleSize large) (positive : 0 < sampleSize)
    (header : FileHeader) (data : Bytes) :
    (small.attach header data).2.IsSampleOf Related sampleSize (large.attach header data).2 := by
  have hclear := h.clear
  have hconfig := h.config_eq
  unfold Decoder.attach
  split
  · exact ⟨hclear.codec, hclear.config_eq, hclear.full, rfl, hclear.layout_eq, .none⟩
  · refine ⟨hclear.codec, hclear.config_eq, hclear.full, rfl, ?_, .some ?_⟩
    · change layoutFor _ small.config.layout = layoutFor _ large.config.layout
      rw [hconfig]
    · change Source.IsSampleOf ⟨header, data, compositorFor small.config header⟩
        ⟨header, data, compositorFor large.config header⟩ sampleSize
      rw [hconfig]
      exact Source.IsSampleOf.compositorFor positive h.full header data

variable [LawfulBufferPool π₁] [LawfulBufferPool π₂] [ToString ε] {codec₁ : Codec σ₁ ε}
  {codec₂ : Codec σ₂ ε}

/-- A frame that both decoders decode is shown alike, if its file is aligned. -/
theorem decodeFrame (h : small.IsSampleOf Related sampleSize large)
    (agree : Codec.Agree Related codec₁ codec₂) (positive : 0 < sampleSize)
    {source₁ source₂ : Source} (sources : source₁.IsSampleOf source₂ sampleSize) {frame : Frame}
    (member : frame ∈ source₂.header.frames) :
    (small.decodeFrame codec₁ source₁ frame).2.IsSampleOf Related sampleSize
        (large.decodeFrame codec₂ source₂ frame).2 ∧
      (source₂.header.AlignedTo sampleSize →
        SameUpTo (ShownAlike source₂.header.canvas sampleSize large.layout)
          (small.decodeFrame codec₁ source₁ frame).1.result
          (large.decodeFrame codec₂ source₂ frame).1.result) := by
  -- both codecs are asked for the frame of one file, and so they fail or succeed together
  have hagree := decoded_agree agree h.codec source₂.data frame
  rcases hsmall : small.decoded codec₁ source₂.data frame with ⟨result, image, state₁⟩
  rcases hlarge : large.decoded codec₂ source₂.data frame with ⟨result', image', state₂⟩
  rw [hsmall, hlarge] at hagree
  obtain ⟨hresult, himage, hstates⟩ := hagree
  obtain rfl : result = result' := hresult
  rw [← sources.data_eq] at hsmall
  cases result with
  | error e =>
    obtain ⟨pool₁, hsmall⟩ := decodeFrame_of_error hsmall
    obtain ⟨pool₂, hlarge⟩ := decodeFrame_of_error hlarge
    rw [hsmall, hlarge]
    exact ⟨⟨hstates, h.config_eq, h.full, h.index_eq, h.layout_eq, h.source⟩,
      fun _ => .error _⟩
  | ok =>
    obtain rfl : image = image' := himage rfl
    obtain ⟨pool₁, hsmall⟩ := decodeFrame_of_ok hsmall
    obtain ⟨pool₂, hlarge⟩ := decodeFrame_of_ok hlarge
    have hdrawn := sources.draw positive member image
    have hshape₁ := small.hasShape_outputFor source₁ frame
    have hshape₂ := large.hasShape_outputFor source₂ frame
    rw [hsmall, hlarge]
    refine ⟨⟨hstates, h.config_eq, h.full, h.index_eq, h.layout_eq, .some hdrawn⟩,
      fun aligned => .ok ?_⟩
    rw [sources.header_eq, h.config_eq, aligned.downsampledSize_eq positive, h.layout_eq]
      at hshape₁
    rw [h.full, aligned.downsampledSize_one positive] at hshape₂
    rw [h.config_eq, h.full]
    exact hdrawn.view aligned image hshape₁ hshape₂

/-- **What is shown at a step.** Decoders that play the same return the same error, or frames that
are alike if the file is aligned, and play the same afterwards. -/
theorem nextFrame (h : small.IsSampleOf Related sampleSize large)
    (agree : Codec.Agree Related codec₁ codec₂) (positive : 0 < sampleSize) :
    (small.nextFrame codec₁).2.IsSampleOf Related sampleSize (large.nextFrame codec₂).2 ∧
      ∀ header data, large.Plays header data → header.AlignedTo sampleSize →
        SameUpTo (ShownAlike header.canvas sampleSize large.layout)
          (small.nextFrame codec₁).1.result (large.nextFrame codec₂).1.result := by
  have hsource := h.source
  obtain ⟨hsmall, hlarge⟩ | ⟨source₁, source₂, hsmall, hlarge, hsample⟩ := h.source_cases
  · simp only [Decoder.nextFrame, hsmall, hlarge]
    rw [hsmall, hlarge] at hsource
    exact ⟨⟨h.codec, h.config_eq, h.full, h.index_eq, h.layout_eq, hsource⟩,
      fun _ _ _ _ => .error _⟩
  · have hselected : small.index.bind source₁.header.frame? =
        large.index.bind source₂.header.frame? := by rw [h.index_eq, hsample.header_eq]
    cases hframe : large.index.bind source₂.header.frame? with
    | none =>
      rw [hframe] at hselected
      simp only [Decoder.nextFrame, hsmall, hlarge, hselected, hframe]
      rw [hsmall, hlarge] at hsource
      exact ⟨⟨h.codec, h.config_eq, h.full, h.index_eq, h.layout_eq, hsource⟩,
        fun _ _ _ _ => .error _⟩
    | some frame =>
      rw [hframe] at hselected
      obtain ⟨i, -, hi⟩ := Option.bind_eq_some_iff.mp hframe
      have hmember : frame ∈ source₂.header.frames := List.mem_of_getElem? hi
      rw [nextFrame_of_frame hsmall hselected, nextFrame_of_frame hlarge hframe]
      obtain ⟨hnext, hshown⟩ := h.decodeFrame agree positive hsample hmember
      refine ⟨hnext, fun header data hplays aligned => ?_⟩
      rw [Plays, hlarge] at hplays
      cases hplays
      exact hshown aligned

/-- **What a step preserves.** Decoders that play the same still do after they were asked for the
same. -/
theorem apply (h : small.IsSampleOf Related sampleSize large)
    (agree : Codec.Agree Related codec₁ codec₂) (positive : 0 < sampleSize)
    {operation₁ operation₂ : Operation} (same : operation₁.Same operation₂) :
    (small.apply codec₁ operation₁).IsSampleOf Related sampleSize
      (large.apply codec₂ operation₂) := by
  cases same with
  | releaseFrame first second =>
    exact ⟨h.codec, h.config_eq, h.full, h.index_eq, h.layout_eq, h.source⟩
  | refl =>
    cases operation₁ with
    | advance => exact h.advance
    | nextFrame => exact (h.nextFrame agree positive).1
    | resetIndex => exact ⟨h.codec, h.config_eq, h.full, rfl, h.layout_eq, h.source⟩
    | releaseFrame frame =>
      exact ⟨h.codec, h.config_eq, h.full, h.index_eq, h.layout_eq, h.source⟩
    | clear => exact h.clear
    | attach header data => exact h.attach positive header data
    | setLayout layout => exact h.setLayout layout

theorem run (h : small.IsSampleOf Related sampleSize large)
    (agree : Codec.Agree Related codec₁ codec₂) (positive : 0 < sampleSize)
    {operations₁ operations₂ : List Operation}
    (same : List.Forall₂ Operation.Same operations₁ operations₂) :
    (small.run codec₁ operations₁).IsSampleOf Related sampleSize
      (large.run codec₂ operations₂) := by
  induction same generalizing small large with
  | nil => exact h
  | cons hsame _ ih => exact ih (h.apply agree positive hsame)

end IsSampleOf

section Runs

variable {Related : σ₁ → σ₂ → Prop} {config : DecoderConfig} {exponent : Nat} {state₁ : σ₁}
  {state₂ : σ₂} {pool₁ : π₁} {pool₂ : π₂} {small : Decoder σ₁ π₁} {large : Decoder σ₂ π₂}

/-- New decoders with the same settings, but for a sample size that is a power of two. -/
theorem isSampleOf_new (states : Related state₁ state₂)
    (new₁ : new? state₁ pool₁ { config with sampleSize := 2 ^ exponent } = .ok small)
    (new₂ : new? state₂ pool₂ { config with sampleSize := 1 } = .ok large) :
    small.IsSampleOf Related (2 ^ exponent) large := by
  have hpower : floorPowerOfTwo (2 ^ exponent) = 2 ^ exponent := by
    rw [floorPowerOfTwo, Nat.log2_two_pow, Nat.shiftLeft_eq, Nat.one_mul]
  rw [new?, if_neg (Nat.ne_of_gt (Nat.two_pow_pos exponent)), hpower] at new₁
  rw [new?, if_neg Nat.one_ne_zero] at new₂
  cases new₁
  cases new₂
  exact ⟨states, rfl, rfl, rfl, rfl, .none⟩

variable [BufferPool π₁] [LawfulBufferPool π₁] [BufferPool π₂] [LawfulBufferPool π₂] [ToString ε]
  {codec₁ : Codec σ₁ ε} {codec₂ : Codec σ₂ ε} {operations₁ operations₂ : List Operation}
  {header : FileHeader} {data : Bytes}

/-- **Playing a file made smaller.** Let two new decoders have the same settings, but that one
makes its canvas smaller by a power of two, and let their codecs agree. Ask both for the same, as
often as one likes, until a file is attached in which the edges of all frames fall between the
cells. Then the smaller canvas has the pixels of the full one at multiples of the sample size, or
there is no canvas yet. If a frame is asked for next, both decoders return the same error, or
frames of their sizes that are related in the same way. -/
theorem nextFrame_run_isSampleOf (config : DecoderConfig)
    (agree : Codec.Agree Related codec₁ codec₂) (states : Related state₁ state₂)
    (new₁ : new? state₁ pool₁ { config with sampleSize := 2 ^ exponent } = .ok small)
    (new₂ : new? state₂ pool₂ { config with sampleSize := 1 } = .ok large)
    (same : List.Forall₂ Operation.Same operations₁ operations₂)
    (plays : (large.run codec₂ operations₂).Plays header data)
    (aligned : header.AlignedTo (2 ^ exponent)) :
    (small.run codec₁ operations₁).Plays header data ∧
      Option.Rel (fun first second => first.IsSampleOf second header.canvas (2 ^ exponent))
        (small.run codec₁ operations₁).canvas? (large.run codec₂ operations₂).canvas? ∧
      SameUpTo (ShownAlike header.canvas (2 ^ exponent) (large.run codec₂ operations₂).layout)
        ((small.run codec₁ operations₁).nextFrame codec₁).1.result
        ((large.run codec₂ operations₂).nextFrame codec₂).1.result := by
  have positive : 0 < 2 ^ exponent := Nat.two_pow_pos exponent
  have hrun := (isSampleOf_new states new₁ new₂).run agree positive same
  exact ⟨hrun.plays plays, hrun.rel_canvas? plays aligned,
    (hrun.nextFrame agree positive).2 header data plays aligned⟩

end Runs

end Decoder

/-! ### A codec with a memory -/

/-- A codec that gives each pixel a shade of its own, which depends on what it was asked for
before. -/
def shadingCodec : Codec Nat String where
  decode calls _ blank :=
    (.ok (),
      { blank with
        pixels := blank.pixels.mapIdx fun i _ => UInt32.ofNat (0x80000000 + 100 * calls + i) },
      calls + 1)

/-- Whatever it remembers, the codec agrees with itself. -/
theorem agree_shadingCodec : Codec.Agree (· = ·) shadingCodec shadingCodec := by
  rintro calls _ request blank₁ blank₂ rfl hshape₁ hshape₂
  refine ⟨rfl, fun _ => ?_, rfl⟩
  have hpixels : (blank₁.pixels.mapIdx fun i _ => UInt32.ofNat (0x80000000 + 100 * calls + i)) =
      blank₂.pixels.mapIdx fun i _ => UInt32.ofNat (0x80000000 + 100 * calls + i) :=
    Array.ext (by simp [hshape₁.size_eq, hshape₂.size_eq]) fun i _ _ => by simp
  simp only [shadingCodec, hpixels, hshape₁.width_eq, hshape₂.width_eq, hshape₁.height_eq,
    hshape₂.height_eq, hshape₁.layout_eq, hshape₂.layout_eq]

/-- An animation of five by three pixels. Its second frame is cleared when the third, which reaches
to the lower right corner, replaces what is below it. -/
def cornered : Bytes :=
  (ChunkHeader.mk .riff 150).encode ++ FourCC.webp.bytes ++
    (ChunkHeader.mk .vp8x 10).encode ++ [2, 0, 0, 0, 4, 0, 0, 2, 0, 0] ++
    (ChunkHeader.mk .anim 6).encode ++ [0, 0, 0, 0, 0, 0] ++
    (ChunkHeader.mk .anmf 30).encode ++ [0, 0, 0, 0, 0, 0, 4, 0, 0, 2, 0, 0, 40, 0, 0, 0] ++
      (ChunkHeader.mk .vp8l 6).encode ++ [0x2f, 0x04, 0x80, 0, 0, 0] ++
    (ChunkHeader.mk .anmf 30).encode ++ [1, 0, 0, 0, 0, 0, 1, 0, 0, 1, 0, 0, 40, 0, 0, 1] ++
      (ChunkHeader.mk .vp8l 6).encode ++ [0x2f, 0x01, 0x40, 0, 0, 0] ++
    (ChunkHeader.mk .anmf 30).encode ++ [1, 0, 0, 1, 0, 0, 2, 0, 0, 0, 0, 0, 40, 0, 0, 2] ++
      (ChunkHeader.mk .vp8l 6).encode ++ [0x2f, 0x02, 0, 0, 0, 0]

def corneredHeader : FileHeader := (parse {} cornered).result.toOption.getD default

/-- The animation is played up to its third frame; the decoder is given back a frame on the way. -/
def corneredOperations (frame : PixelBuffer) : List Operation :=
  [.attach corneredHeader cornered, .advance, .nextFrame, .releaseFrame frame, .advance,
    .nextFrame, .advance]

theorem parse_cornered : (parse {} cornered).result = .ok corneredHeader :=
  Outcome.result_eq_ok_getD (by decide +kernel)

/-- A new decoder that makes the canvas smaller by two, with a pool that holds what others left. -/
def halvingDecoder : Decoder Nat HeapPool :=
  { freshDecoder ⟨[⟨3, 1, .rgb565, #[1, 2, 3]⟩], [#[7, 7, 7]], 1⟩ with
    config := { sampleSize := 2 } }

/-- The third frame of the animation is shown alike in its full size and in half of it, rounded
down, after what was drawn before it. -/
theorem nextFrame_run_corneredOperations :
    (parse {} cornered).result = .ok corneredHeader ∧ corneredHeader.isAnimated ∧
      corneredHeader.AlignedTo 2 ∧
      Option.Rel (fun first second => first.IsSampleOf second corneredHeader.canvas 2)
        (halvingDecoder.run shadingCodec (corneredOperations {})).canvas?
        ((freshDecoder {}).run shadingCodec (corneredOperations (.new 5 3 .argb8888))).canvas? ∧
      SameUpTo (ShownAlike corneredHeader.canvas 2 .argb8888)
        ((halvingDecoder.run shadingCodec (corneredOperations {})).nextFrame shadingCodec).1.result
        (((freshDecoder {}).run shadingCodec (corneredOperations
          (.new 5 3 .argb8888))).nextFrame shadingCodec).1.result := by
  have haligned : corneredHeader.AlignedTo (2 ^ 1) := by decide +kernel
  have hplays : ((freshDecoder {}).run shadingCodec (corneredOperations
      (.new 5 3 .argb8888))).Plays corneredHeader cornered := by decide +kernel
  have hlayout : ((freshDecoder {}).run shadingCodec (corneredOperations
      (.new 5 3 .argb8888))).layout = .argb8888 := by decide +kernel
  have hsame : List.Forall₂ Operation.Same (corneredOperations {})
      (corneredOperations (.new 5 3 .argb8888)) :=
    .cons (.refl _) (.cons (.refl _) (.cons (.refl _) (.cons (.releaseFrame _ _)
      (.cons (.refl _) (.cons (.refl _) (.cons (.refl _) .nil))))))
  have hsmall : Decoder.new? 0 halvingDecoder.pool
      { ({} : DecoderConfig) with sampleSize := 2 ^ 1 } = .ok halvingDecoder := rfl
  have hlarge : Decoder.new? 0 (freshDecoder {}).pool
      { ({} : DecoderConfig) with sampleSize := 1 } = .ok (freshDecoder {}) := rfl
  obtain ⟨-, hcanvas, hshown⟩ := Decoder.nextFrame_run_isSampleOf {} agree_shadingCodec rfl hsmall
    hlarge hsame hplays haligned
  rw [hlayout] at hshown
  exact ⟨parse_cornered, by decide +kernel, haligned, hcanvas, hshown⟩

end WebP
