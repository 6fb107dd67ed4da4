import WebP.Proofs.Container.Extent
import WebP.Proofs.Playback.Cells
import WebP.Proofs.Playback.History

/-!
# The only frame of a file

A file with a single frame is shown in one of two ways. If its extended header announces an
animation, the frame is drawn on a blank canvas at the place that its rectangle says. If not, it
is copied to the output from the upper left corner on. A frame chunk in a file that announces no
animation may have its rectangle elsewhere, and then the frame is not shown where it should be.

## Main definitions

* `WebP.PixelBuffer.Shows`: a buffer that shows an image in a rectangle and nothing elsewhere.
* `WebP.Decoder.opened`: a decoder with a file attached and its first frame selected.
* `WebP.Decoder.ShowsInPlace`: a frame is shown where its rectangle says.

## Main results

* `WebP.Decoder.exists_nextFrame_opened`: what is shown of the only frame of a file.
* `WebP.Decoder.forall_showsInPlace_iff`: when it is shown where its rectangle says.
-/

namespace WebP

/-! ### Images in their place -/

/-- The pixel at `x`, `y` lies in the rectangle. -/
def Rect.Contains (rect : Rect) (x y : Nat) : Prop :=
  rect.x ≤ x ∧ x < rect.right ∧ rect.y ≤ y ∧ y < rect.bottom

instance (rect : Rect) (x y : Nat) : Decidable (rect.Contains x y) :=
  inferInstanceAs (Decidable (_ ∧ _))

theorem Rect.contains_ofSize_iff {size : Size} {x y : Nat} :
    (ofSize size).Contains x y ↔ x < size.width ∧ y < size.height := by
  simp [Contains, right, bottom, ofSize]

/-- A rectangle that begins in the upper left corner is known by its size. -/
theorem Rect.eq_ofSize {rect : Rect} (hx : rect.x = 0) (hy : rect.y = 0) :
    rect = ofSize rect.size := by
  obtain ⟨x, y, width, height⟩ := rect
  cases hx
  cases hy
  rfl

/-- The pixel of an image, placed in a rectangle, at the coordinates `x`, `y`. -/
def PixelBuffer.placed (image : PixelBuffer) (rect : Rect) (x y : Nat) : Pixel :=
  if rect.Contains x y then
    (image.pixel? (x - rect.x) (y - rect.y)).getD Pixel.transparent
  else
    Pixel.transparent

/-- The buffer shows the image in the rectangle and is transparent elsewhere, in its layout. -/
def PixelBuffer.Shows (output image : PixelBuffer) (rect : Rect) : Prop :=
  ∀ x < output.width, ∀ y < output.height,
    output.pixel? x y = some (output.layout.convert (image.placed rect x y))

section Places

variable {canvas : Size} {rect : Rect} {image output : PixelBuffer} {layout : ColorLayout}

/-- On a canvas of full size a rectangle covers the cells that lie in it. -/
theorem Canvas.region_blank_contains_iff {x y : Nat} (hx : x < canvas.width)
    (hy : y < canvas.height) :
    ((blank canvas 1).region rect).Contains x y ↔ rect.Contains x y := by
  simp only [Region.Contains, region, blank, Rect.Contains, Nat.div_one]
  omega

/-- On a blank canvas of full size a frame is shown in its place. -/
theorem Canvas.pixel?_image_addFrame_placed (background : Pixel) (place : Placement)
    (shape : image.HasShape place.rect.width place.rect.height .argb8888) {x y : Nat}
    (hx : x < canvas.width) (hy : y < canvas.height) :
    ((blank canvas 1).addFrame background place image).image.pixel? x y =
      some (image.placed place.rect x y) := by
  rw [pixel?_image_addFrame_blank background place image hx hy, PixelBuffer.placed]
  simp only [region_blank_contains_iff hx hy]
  refine congrArg some (ite_congr rfl (fun hinside => ?_) fun _ => rfl)
  obtain ⟨hleft, hright, htop, hbottom⟩ := hinside
  have hcolumn : (blank canvas 1).sample x place.rect.x image.width = x - place.rect.x := by
    rw [sample, shape.width_eq, blank, Nat.mul_one]
    rw [Rect.right] at hright
    omega
  have hrow : (blank canvas 1).sample y place.rect.y image.height = y - place.rect.y := by
    rw [sample, shape.height_eq, blank, Nat.mul_one]
    rw [Rect.bottom] at hbottom
    omega
  rw [sampled, hcolumn, hrow]

/-- A copy of the canvas with a first frame shows that frame in its place. -/
theorem Canvas.shows_copyInto (background : Pixel) (place : Placement)
    (shape : image.HasShape place.rect.width place.rect.height .argb8888)
    (output : PixelBuffer) :
    (((blank canvas 1).addFrame background place image).copyInto output).Shows image
      place.rect := by
  have hshape := ((hasShape_blank canvas 1).addFrame background place image).copyInto output
  intro x hx y hy
  rw [hshape.width_eq] at hx
  rw [hshape.height_eq] at hy
  rw [pixel?_copyInto, pixel?_image_addFrame_placed background place shape hx hy]
  rfl

/-- A copy of an image shows it in the upper left corner. -/
theorem PixelBuffer.shows_downsampleInto {width height : Nat} {size : Size}
    (output_shape : output.HasShape width height layout)
    (shape : image.HasShape size.width size.height .argb8888) :
    (image.downsampleInto 1 output).Shows image (.ofSize size) := by
  have hshape := output_shape.downsampleInto image 1
  intro x hx y hy
  rw [hshape.width_eq] at hx
  rw [hshape.height_eq] at hy
  rw [pixel?_downsampleInto output_shape image 1 hx hy, hshape.layout_eq, Nat.mul_one, Nat.mul_one,
    placed]
  by_cases hinside : x < size.width ∧ y < size.height
  · rw [if_pos (Rect.contains_ofSize_iff.mpr hinside)]
    rfl
  · rw [if_neg (mt Rect.contains_ofSize_iff.mp hinside), pixel?, shape.width_eq, shape.height_eq,
      if_neg hinside]
    rfl

/-- A white image that is shown in the upper left corner is not shown elsewhere too. -/
theorem PixelBuffer.Shows.eq_zero_of_white {size : Size}
    (hshape : output.HasShape canvas.width canvas.height layout) (hcanvas : canvas.IsPositive)
    (hsize : size.IsPositive)
    (white : ∀ x < size.width, ∀ y < size.height, image.pixel? x y = some 0xffffffff)
    (corner : output.Shows image (.ofSize size)) (shown : output.Shows image rect) :
    rect.x = 0 ∧ rect.y = 0 := by
  have hwidth : 0 < output.width := by
    rw [hshape.width_eq]
    exact hcanvas.1
  have hheight : 0 < output.height := by
    rw [hshape.height_eq]
    exact hcanvas.2
  have hsame := (corner 0 hwidth 0 hheight).symm.trans (shown 0 hwidth 0 hheight)
  have hcorner : image.placed (.ofSize size) 0 0 = 0xffffffff := by
    rw [placed, if_pos (Rect.contains_ofSize_iff.mpr hsize)]
    exact congrArg (Option.getD · Pixel.transparent) (white 0 hsize.1 0 hsize.2)
  -- elsewhere the pixel in the corner would have to be transparent, and in no layout is that white
  by_contra helsewhere
  have hnone : ¬ rect.Contains 0 0 := fun h =>
    helsewhere ⟨Nat.le_zero.mp h.1, Nat.le_zero.mp h.2.2.1⟩
  rw [hcorner, placed, if_neg hnone] at hsame
  have hconvert := Option.some.inj hsame
  cases hlayout : output.layout with
  | argb8888 =>
    rw [hlayout] at hconvert
    exact absurd hconvert (by decide)
  | rgb565 =>
    rw [hlayout] at hconvert
    exact absurd hconvert (by decide)

end Places

/-! ### Playing the only frame -/

/-- A codec that paints every image white. -/
def Codec.white {σ ε : Type} : Codec σ ε where
  decode state _ blank := (.ok (), blank.fill 0xffffffff, state)

/-- The bytes of an accepted file are all there. -/
theorem fileLength_le_of_parse {parsing : Config} {header : FileHeader} {data : Bytes}
    (accepted : (parse parsing data).result = .ok header) : header.fileLength ≤ data.length := by
  obtain ⟨hframed, chunks, file, -, -, -, rfl⟩ := describes_of_parse accepted
  exact hframed.complete

/-- What is shown of a frame that is the first one on the canvas of its file. -/
theorem Source.shows_view {config : DecoderConfig} {header : FileHeader} {data : Bytes}
    {place : Placement} {image output : PixelBuffer} {layout : ColorLayout}
    (full : config.sampleSize = 1) (hcanvas : header.canvas.IsPositive)
    (shape : image.HasShape place.rect.width place.rect.height .argb8888)
    (output_shape : output.HasShape header.canvas.width header.canvas.height layout) :
    let view := ((Source.mk header data (Decoder.compositorFor config header)).draw place
      image).view config.sampleSize image output
    view.HasShape header.canvas.width header.canvas.height layout ∧
      view.Shows image (if header.isAnimated then place.rect else .ofSize place.rect.size) := by
  cases hanimated : header.isAnimated with
  | false =>
    have hview : ((Source.mk header data (Decoder.compositorFor config header)).draw place
        image).view config.sampleSize image output = image.downsampleInto 1 output := by
      rw [full, Decoder.compositorFor, hanimated]
      rfl
    rw [hview]
    exact ⟨output_shape.downsampleInto image 1, PixelBuffer.shows_downsampleInto output_shape shape⟩
  | true =>
    obtain ⟨background, hcompositor⟩ : ∃ background,
        Decoder.compositorFor config header = some (.new header.canvas 1 background) := by
      rw [Decoder.compositorFor, if_pos hanimated, full]
      exact ⟨_, rfl⟩
    have hview : ((Source.mk header data (Decoder.compositorFor config header)).draw place
        image).view config.sampleSize image output =
        ((Canvas.blank (downsampledSize header.canvas 1) 1).addFrame background place
          image).copyInto output := by
      rw [hcompositor]
      rfl
    rw [hview, downsampledSize_one hcanvas.1 hcanvas.2]
    refine ⟨?_, Canvas.shows_copyInto background place shape output⟩
    rw [← output_shape.layout_eq]
    exact ((Canvas.hasShape_blank header.canvas 1).addFrame background place image).copyInto output

namespace Decoder

variable {σ π ε : Type} [BufferPool π] {decoder : Decoder σ π} {header : FileHeader}
  {data : Bytes} {frame : Frame} {image : PixelBuffer}

/-- The decoder with a file attached and its first frame selected. -/
def opened (decoder : Decoder σ π) (header : FileHeader) (data : Bytes) : Decoder σ π :=
  (decoder.attach header data).2.advance

/-- A file that is all there is attached, whatever the decoder played before. -/
theorem opened_eq (decoder : Decoder σ π) (complete : header.fileLength ≤ data.length)
    (nonempty : header.frameCount ≠ 0) :
    decoder.opened header data =
      { decoder.clear with
        source := some ⟨header, data, compositorFor decoder.config header⟩
        index := some 0
        layout := layoutFor (some header) decoder.config.layout } := by
  rw [opened, attach, if_neg (Nat.not_lt.mpr complete)]
  simp only [advance, clear, if_neg nonempty]

variable [ToString ε] {codec : Codec σ ε}

/-- A frame that is decoded to `image` is shown where its rectangle says, in a buffer as large as
the canvas that is transparent elsewhere. -/
def ShowsInPlace (codec : Codec σ ε) (decoder : Decoder σ π) (header : FileHeader) (frame : Frame)
    (image : PixelBuffer) : Prop :=
  ∃ output, (decoder.nextFrame codec).1.result = .ok output ∧
    output.HasShape header.canvas.width header.canvas.height decoder.layout ∧
    output.Shows image frame.rect

variable [LawfulBufferPool π] {parsing : Config}
  (accepted : (parse parsing data).result = .ok header) (lone : header.frames = [frame])
  (full : decoder.config.sampleSize = 1)

include accepted lone full

/-- **What is shown of the only frame of a file.** If the file announces an animation the frame is
shown where its rectangle says, and if not, in the upper left corner. -/
theorem exists_nextFrame_opened {state : σ}
    (decodes : (decoder.opened header data).decoded codec data frame = (.ok (), image, state))
    (shape : image.HasShape frame.rect.width frame.rect.height .argb8888) :
    ∃ output, ((decoder.opened header data).nextFrame codec).1.result = .ok output ∧
      output.HasShape header.canvas.width header.canvas.height
        (decoder.opened header data).layout ∧
      output.Shows image
        (if header.isAnimated then frame.rect else .ofSize frame.rect.size) := by
  have hcanvas := (isSized_of_parse accepted).1
  have hopened := decoder.opened_eq (fileLength_le_of_parse accepted)
    (by simp [FileHeader.frameCount, lone] : header.frameCount ≠ 0)
  have hselected : (decoder.opened header data).index.bind header.frame? = some frame := by
    rw [hopened]
    simp only [Option.bind_some, FileHeader.frame?, lone, List.getElem?_cons_zero]
  have hattached : (decoder.opened header data).source =
      some ⟨header, data, compositorFor decoder.config header⟩ := by
    rw [hopened]
  have hconfig : (decoder.opened header data).config = decoder.config := by
    rw [hopened]
    rfl
  have hdecodes : (decoder.opened header data).decoded codec
      (Source.mk header data (compositorFor decoder.config header)).data frame =
      (.ok (), image, state) := decodes
  obtain ⟨pool, hframe⟩ := decodeFrame_of_ok hdecodes
  have houtput := (decoder.opened header data).hasShape_outputFor
    ⟨header, data, compositorFor decoder.config header⟩ frame
  rw [hconfig, full, downsampledSize_one hcanvas.1 hcanvas.2] at houtput
  rw [nextFrame_of_frame hattached hselected, hframe, hconfig]
  exact ⟨_, rfl, Source.shows_view full hcanvas shape houtput⟩

/-- A frame that is not in the corner of its canvas is not shown in its place if the file announces
no animation. -/
theorem exists_not_showsInPlace (still : ¬ header.isAnimated)
    (moved : ¬ (frame.rect.x = 0 ∧ frame.rect.y = 0)) :
    ∃ image state,
      (decoder.opened header data).decoded (Codec.white : Codec σ ε) data frame =
        (.ok (), image, state) ∧
      image.HasShape frame.rect.width frame.rect.height .argb8888 ∧
      ¬ (decoder.opened header data).ShowsInPlace (Codec.white : Codec σ ε) header frame image := by
  obtain ⟨hcanvas, hframes⟩ := isSized_of_parse accepted
  obtain ⟨hsize, hpositive⟩ := hframes frame (lone ▸ List.mem_singleton_self frame)
  have hblank := (decoder.opened header data).hasShape_blankFor (.ofFrame frame data)
  change PixelBuffer.HasShape _ frame.image.size.width frame.image.size.height _ at hblank
  rw [← hsize] at hpositive hblank
  have hshape := hblank.fill 0xffffffff
  obtain ⟨image, state, hdecodes, rfl⟩ : ∃ image state,
      (decoder.opened header data).decoded (Codec.white : Codec σ ε) data frame =
        (.ok (), image, state) ∧
      image = ((decoder.opened header data).blankFor (.ofFrame frame data)).1.fill 0xffffffff :=
    ⟨_, _, rfl, rfl⟩
  refine ⟨_, state, hdecodes, hshape, ?_⟩
  rintro ⟨output, hnext, houtput, hshown⟩
  obtain ⟨_, hcopied, -, hcorner⟩ :=
    exists_nextFrame_opened accepted lone full hdecodes hshape
  rw [hnext] at hcopied
  cases hcopied
  rw [if_neg still] at hcorner
  exact moved (hcorner.eq_zero_of_white houtput hcanvas hpositive
    (fun x hx y hy => hblank.pixel?_fill _ hx hy) hshown)

/-- **When the only frame is in its place.** Whatever the codec makes of it, the only frame of a
file is shown where its rectangle says exactly if the file announces an animation or the rectangle
begins in the upper left corner. -/
theorem forall_showsInPlace_iff :
    (∀ (codec : Codec σ ε) (image : PixelBuffer) (state : σ),
      (decoder.opened header data).decoded codec data frame = (.ok (), image, state) →
      image.HasShape frame.rect.width frame.rect.height .argb8888 →
        (decoder.opened header data).ShowsInPlace codec header frame image) ↔
      header.isAnimated ∨ (frame.rect.x = 0 ∧ frame.rect.y = 0) := by
  constructor
  · intro hall
    by_contra hplace
    obtain ⟨hstill, hmoved⟩ := not_or.mp hplace
    obtain ⟨image, state, hdecodes, hshape, hmissing⟩ :=
      exists_not_showsInPlace (ε := ε) accepted lone full hstill hmoved
    exact hmissing (hall _ image state hdecodes hshape)
  · intro hplace codec image state hdecodes hshape
    obtain ⟨output, hnext, houtput, hshown⟩ :=
      exists_nextFrame_opened accepted lone full hdecodes hshape
    refine ⟨output, hnext, houtput, ?_⟩
    split at hshown
    · exact hshown
    · rename_i hstill
      obtain ⟨hx, hy⟩ := hplace.resolve_left hstill
      rw [Rect.eq_ofSize hx hy]
      exact hshown

end Decoder

/-! ### A frame that is moved -/

/-- A file with a frame of one pixel that is not in the corner of its canvas. It has an animation
header, but need not announce an animation. -/
def movedFrame (animated : Bool) : Bytes :=
  (ChunkHeader.mk .riff 74).encode ++ FourCC.webp.bytes ++
    (ChunkHeader.mk .vp8x 10).encode ++
      [if animated then 2 else 0, 0, 0, 0, 3, 0, 0, 1, 0, 0] ++
    (ChunkHeader.mk .anim 6).encode ++ [0, 0, 0, 0, 0, 0] ++
    (ChunkHeader.mk .anmf 30).encode ++ [1, 0, 0, 0, 0, 0, 0, 0, 0, 0, 0, 0, 40, 0, 0, 0] ++
      (ChunkHeader.mk .vp8l 6).encode ++ [0x2f, 0, 0, 0, 0, 0]

/-- The file is accepted, with a single frame whose rectangle begins in the third column. -/
theorem exists_parse_movedFrame (animated : Bool) :
    ∃ header frame, (parse {} (movedFrame animated)).result = .ok header ∧
      header.frames = [frame] ∧ frame.rect = ⟨2, 0, 1, 1⟩ ∧ header.isAnimated = animated := by
  have hread : ((parse {} (movedFrame animated)).result.toOption.map fun header =>
      (header.frames.map (·.rect), header.isAnimated)) = some ([⟨2, 0, 1, 1⟩], animated) := by
    cases animated <;> decide +kernel
  obtain ⟨header, hheader, hvalues⟩ := Option.map_eq_some_iff.mp hread
  simp only [Prod.mk.injEq] at hvalues
  obtain ⟨frame, hframe, hrect⟩ := List.map_eq_singleton_iff.mp hvalues.1
  exact ⟨header, frame, Outcome.toOption_result_eq_some_iff.mp hheader, hframe, hrect, hvalues.2⟩

/-- If the file announces an animation its frame is shown in the third column. -/
theorem forall_showsInPlace_movedFrame :
    ∃ header frame, (parse {} (movedFrame true)).result = .ok header ∧
      header.frames = [frame] ∧ frame.rect = ⟨2, 0, 1, 1⟩ ∧
      (freshDecoder {}).config.sampleSize = 1 ∧
      ∀ (codec : Codec Nat String) (image : PixelBuffer) (state : Nat),
        ((freshDecoder {}).opened header (movedFrame true)).decoded codec (movedFrame true) frame =
          (.ok (), image, state) →
        image.HasShape frame.rect.width frame.rect.height .argb8888 →
          ((freshDecoder {}).opened header (movedFrame true)).ShowsInPlace codec header frame
            image := by
  obtain ⟨header, frame, haccepted, hlone, hrect, hanimated⟩ := exists_parse_movedFrame true
  exact ⟨header, frame, haccepted, hlone, hrect, rfl,
    (Decoder.forall_showsInPlace_iff haccepted hlone rfl).mpr (.inl hanimated)⟩

/-- The only frame of a file is not always shown where its rectangle says: if this file announces
no animation its frame is shown in the corner. -/
theorem not_forall_showsInPlace :
    ¬ ∀ (parsing : Config) (data : Bytes) (header : FileHeader) (frame : Frame)
      (decoder : Decoder Nat HeapPool) (codec : Codec Nat String) (image : PixelBuffer)
      (state : Nat), (parse parsing data).result = .ok header → header.frames = [frame] →
      decoder.config.sampleSize = 1 →
      (decoder.opened header data).decoded codec data frame = (.ok (), image, state) →
      image.HasShape frame.rect.width frame.rect.height .argb8888 →
        (decoder.opened header data).ShowsInPlace codec header frame image := by
  intro hall
  obtain ⟨header, frame, haccepted, hlone, hrect, hstill⟩ := exists_parse_movedFrame false
  have hfull : (freshDecoder {}).config.sampleSize = 1 := rfl
  obtain ⟨image, state, hdecodes, hshape, hmissing⟩ :=
    Decoder.exists_not_showsInPlace (ε := String) haccepted hlone hfull
      (by rw [hstill]; exact Bool.false_ne_true) (by rw [hrect]; decide)
  exact hmissing (hall {} _ header frame (freshDecoder {}) _ image state haccepted hlone rfl
    hdecodes hshape)

end WebP
