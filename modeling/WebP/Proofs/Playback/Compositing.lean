import WebP.Proofs.Playback.Cells

/-!
# Compositing cell by cell

One more frame on a canvas is told by the cells of the canvas. In each cell there is something
below the frame: nothing if the frame is the first of its loop, the background where the frame
before it is disposed of, and otherwise what the cell showed. A cell that the rectangle of the
frame does not cover shows what is below the frame. A cell that it covers shows a pixel of the
frame, merged with what is below it; that pixel lies in the frame, so it need not be moved to its
last row or column, nor is there a transparent one in its place.

A rectangle is cleared before a frame that replaces what is below it, but no cell shows that: the
cells that are cleared are those in which the frame is drawn.

## Main definitions

* `WebP.Canvas.Covers`: a rectangle covers a cell.
* `WebP.Canvas.below`: what is below a frame in a cell.
* `WebP.Canvas.GainsFrame`: one more frame, cell by cell.

## Main results

* `WebP.Canvas.HasShape.gainsFrame_addFrame`: the canvas on which a frame is drawn gains it.
* `WebP.Compositor.compose_gainsFrame`: so does the canvas of a compositor, which is handed out.
-/

namespace WebP

namespace Canvas

/-- The cell at `x`, `y` lies on the canvas and between the edges of the rectangle, divided by the
sample size. -/
def Covers (canvas : Canvas) (rect : Rect) (x y : Nat) : Prop :=
  (x < canvas.size.width ∧ y < canvas.size.height) ∧
    (rect.x / canvas.sampleSize ≤ x ∧ x < rect.right / canvas.sampleSize) ∧
    (rect.y / canvas.sampleSize ≤ y ∧ y < rect.bottom / canvas.sampleSize)

instance (canvas : Canvas) (rect : Rect) (x y : Nat) : Decidable (canvas.Covers rect x y) :=
  inferInstanceAs (Decidable (_ ∧ _))

/-- What is below a frame in a cell that showed `old`. -/
def below (canvas : Canvas) (background : Pixel) (place : Placement) (x y : Nat) (old : Pixel) :
    Pixel :=
  if place.index = 0 then Pixel.transparent
  else
    match canvas.previous with
    | some (rect, .background) => if canvas.Covers rect x y then background else old
    | _ => old

/-- `drawn` is the canvas with one more frame. -/
structure GainsFrame (canvas : Canvas) (background : Pixel) (place : Placement)
    (decoded : PixelBuffer) (drawn : Canvas) : Prop where
  size_eq : drawn.size = canvas.size
  sampleSize_eq : drawn.sampleSize = canvas.sampleSize
  previous_eq : drawn.previous = some (place.rect, place.dispose)
  /-- A cell that the frame does not cover shows what is below the frame. -/
  outside : ∀ x < canvas.size.width, ∀ y < canvas.size.height, ¬ canvas.Covers place.rect x y →
    ∃ old, canvas.image.pixel? x y = some old ∧
      drawn.image.pixel? x y = some (canvas.below background place x y old)
  /-- A cell that the frame covers shows one of its pixels, merged with what is below it. -/
  inside : ∀ x y, canvas.Covers place.rect x y →
    ∃ old source, canvas.image.pixel? x y = some old ∧
      decoded.pixel? (x * canvas.sampleSize - place.rect.x)
        (y * canvas.sampleSize - place.rect.y) = some source ∧
      drawn.image.pixel? x y =
        some (place.blend.merge source (canvas.below background place x y old))

variable {canvas : Canvas} {size : Size} {sampleSize x y : Nat} {rect : Rect} {old : Pixel}
  {place : Placement} {decoded : PixelBuffer} {layout : ColorLayout}

theorem region_contains_iff : (canvas.region rect).Contains x y ↔ canvas.Covers rect x y := by
  simp only [Region.Contains, region, Covers]
  omega

/-! ### What is below a frame -/

theorem pixel?_image_fill (canvas : Canvas) (rect : Rect) (color : Pixel) (x y : Nat) :
    (canvas.fill rect color).image.pixel? x y =
      (canvas.image.pixel? x y).map fun old =>
        if canvas.Covers rect x y then color else old := by
  simp only [fill, pixel?_image_paint, region_contains_iff]

theorem pixel?_image_restart (canvas : Canvas) (x y : Nat) :
    canvas.restart.image.pixel? x y =
      (canvas.image.pixel? x y).map fun _ => Pixel.transparent :=
  PixelBuffer.pixel?_map ..

/-- Room is made for a frame by putting in each cell what is below the frame. Only where the frame
replaces everything may something else be put there. -/
theorem exists_pixel?_image_prepare (background : Pixel) (place : Placement)
    (hold : canvas.image.pixel? x y = some old) :
    ∃ ready, (canvas.prepare background place).image.pixel? x y = some ready ∧
      (ready = canvas.below background place x y old ∨
        place.blend = .replace ∧ canvas.Covers place.rect x y) := by
  -- a canvas that is cleared where the frame goes differs from what it was in these cells only
  have hclear {start : Canvas} {pixel : Pixel} (hpixel : start.image.pixel? x y = some pixel)
      (hcovers : start.Covers place.rect x y → canvas.Covers place.rect x y) :
      ∃ ready, (start.fill place.rect Pixel.transparent).image.pixel? x y = some ready ∧
        (ready = pixel ∨ BlendMode.replace = .replace ∧ canvas.Covers place.rect x y) := by
    rw [pixel?_image_fill, hpixel]
    by_cases hin : start.Covers place.rect x y
    · exact ⟨_, rfl, .inr ⟨rfl, hcovers hin⟩⟩
    · exact ⟨_, rfl, .inl (if_neg hin)⟩
  unfold prepare below
  by_cases hfirst : place.index = 0
  · have hstart : canvas.restart.image.pixel? x y = some Pixel.transparent := by
      rw [pixel?_image_restart, hold, Option.map_some]
    have hnone : canvas.restart.previous = none := rfl
    simp only [if_pos hfirst, hnone]
    cases place.blend with
    | «over» => exact ⟨_, hstart, .inl rfl⟩
    | replace => exact hclear hstart id
  · simp only [if_neg hfirst]
    match canvas.previous, place.blend with
    | some (rect, .background), _ =>
      refine ⟨_, ?_, .inl rfl⟩
      simp only [pixel?_image_fill, hold, Option.map_some]
    | some (_, .keep), .over => exact ⟨_, hold, .inl rfl⟩
    | some (_, .keep), .replace => exact hclear hold id
    | none, .over => exact ⟨_, hold, .inl rfl⟩
    | none, .replace => exact hclear hold id

/-! ### The pixel of the frame -/

/-- The coordinate of a frame that is shown between its edges is inside the frame. -/
theorem sub_lt_of_div_le {cell start length : Nat} (hstart : start / sampleSize ≤ cell)
    (hstop : cell < (start + length) / sampleSize) : cell * sampleSize - start < length := by
  have hmul : cell * sampleSize < start + length := mul_lt_of_lt_div hstop
  have hpos : 0 < length := by
    refine Nat.pos_of_ne_zero fun hzero => ?_
    rw [hzero, Nat.add_zero] at hstop
    exact absurd hstop (Nat.not_lt.mpr hstart)
  omega

/-- A cell that the frame covers shows a pixel of the frame, at the coordinates of the cell times
the sample size. -/
theorem Covers.exists_sampled (h : canvas.Covers rect x y)
    (shape : decoded.HasShape rect.width rect.height layout) :
    ∃ source, decoded.pixel? (x * canvas.sampleSize - rect.x)
        (y * canvas.sampleSize - rect.y) = some source ∧
      canvas.sampled rect decoded x y = source := by
  obtain ⟨-, ⟨hleft, hright⟩, htop, hbottom⟩ := h
  have hx := sub_lt_of_div_le hleft hright
  have hy := sub_lt_of_div_le htop hbottom
  obtain ⟨source, hsource⟩ := shape.exists_pixel? hx hy
  refine ⟨source, hsource, ?_⟩
  rw [sampled, sample, sample, shape.width_eq, shape.height_eq,
    Nat.min_eq_left (Nat.le_sub_one_of_lt hx), Nat.min_eq_left (Nat.le_sub_one_of_lt hy), hsource,
    Option.getD_some]

/-! ### One more frame -/

theorem HasShape.covers_iff {other : Canvas} (h : canvas.HasShape size sampleSize)
    (h' : other.HasShape size sampleSize) : other.Covers rect x y ↔ canvas.Covers rect x y := by
  simp only [Covers, h.size_eq, h.sampleSize_eq, h'.size_eq, h'.sampleSize_eq]

theorem HasShape.sampled_eq {other : Canvas} (h : canvas.HasShape size sampleSize)
    (h' : other.HasShape size sampleSize) :
    other.sampled rect decoded x y = canvas.sampled rect decoded x y := by
  simp only [sampled, sample, h.sampleSize_eq, h'.sampleSize_eq]

/-- The canvas on which a frame is drawn gains that frame. -/
theorem HasShape.gainsFrame_addFrame (h : canvas.HasShape size sampleSize) (background : Pixel)
    (shape : decoded.HasShape place.rect.width place.rect.height layout) :
    canvas.GainsFrame background place decoded (canvas.addFrame background place decoded) := by
  have hprepare := h.prepare background place
  have hdrawn := h.addFrame background place decoded
  have hold {x y : Nat} (hx : x < canvas.size.width) (hy : y < canvas.size.height) :
      ∃ old, canvas.image.pixel? x y = some old :=
    h.image.exists_pixel? (h.size_eq ▸ hx) (h.size_eq ▸ hy)
  have hcell (x y : Nat) := pixel?_image_draw (canvas.prepare background place) place.rect
    place.blend decoded x y
  simp only [region_contains_iff, h.covers_iff hprepare] at hcell
  constructor
  case size_eq => rw [hdrawn.size_eq, h.size_eq]
  case sampleSize_eq => rw [hdrawn.sampleSize_eq, h.sampleSize_eq]
  case previous_eq => rfl
  case outside =>
    intro x hx y hy hout
    obtain ⟨old, hold⟩ := hold hx hy
    obtain ⟨ready, hready, rfl | ⟨-, hin⟩⟩ :=
      exists_pixel?_image_prepare background place hold
    · refine ⟨old, hold, ?_⟩
      rw [image_addFrame, hcell, hready, Option.map_some, if_neg hout]
    · exact absurd hin hout
  case inside =>
    intro x y hin
    obtain ⟨old, hold⟩ := hold hin.1.1 hin.1.2
    obtain ⟨source, hsource, hsampled⟩ := hin.exists_sampled shape
    obtain ⟨ready, hready, hbelow⟩ := exists_pixel?_image_prepare background place hold
    refine ⟨old, source, hold, hsource, ?_⟩
    rw [image_addFrame, hcell, hready, Option.map_some, if_pos hin, h.sampled_eq hprepare,
      hsampled]
    obtain rfl | ⟨hreplace, -⟩ := hbelow
    · rfl
    · rw [hreplace]
      rfl

end Canvas

namespace Compositor

variable {π : Type} [BufferPool π] {compositor : Compositor} {place : Placement}
  {decoded : PixelBuffer} {layout : ColorLayout}

/-- **Compositing.** Whatever the canvas showed and whatever frame was drawn last, the canvas of a
compositor gains the frame that is drawn, cell by cell, and the output shows the canvas in its own
layout. -/
theorem compose_gainsFrame (h : compositor.WellShaped)
    (shape : decoded.HasShape place.rect.width place.rect.height layout) (output : PixelBuffer)
    (pool : π) :
    ∃ drawn, (compositor.compose place decoded output pool).compositor =
        { compositor with canvas := some drawn } ∧
      drawn.HasShape compositor.size compositor.sampleSize ∧
      compositor.currentCanvas.GainsFrame compositor.background place decoded drawn ∧
      (compositor.compose place decoded output pool).output.HasShape compositor.size.width
        compositor.size.height output.layout ∧
      ∀ x y, (compositor.compose place decoded output pool).output.pixel? x y =
        (drawn.image.pixel? x y).map output.layout.convert := by
  have hdrawn := h.currentCanvas.addFrame compositor.background place decoded
  refine ⟨_, compositor_compose .., hdrawn, ?_, ?_, fun x y => ?_⟩
  · exact h.currentCanvas.gainsFrame_addFrame compositor.background shape
  · rw [output_compose]
    exact hdrawn.copyInto output
  · rw [output_compose]
    exact Canvas.pixel?_copyInto ..

end Compositor

/-- A compositor for seven by five pixels, made smaller by two. The frame that it has drawn last
is to be disposed of to the background. -/
def disposing : Compositor where
  size := ⟨3, 2⟩
  sampleSize := 2
  background := 0xff0000ff
  canvas := some ⟨⟨3, 2⟩, 2, Array.replicate 6 0xff00ff00, some (⟨0, 0, 5, 3⟩, .background)⟩

/-- A frame that begins inside a cell, on top of what is disposed of and beside it. -/
def straddling : Placement := ⟨1, ⟨3, 0, 3, 4⟩, .keep, .over⟩

/-- The pixels of that frame, each of its own colour. Those on the left are transparent. -/
def stripes : PixelBuffer :=
  ⟨3, 4, .argb8888, (Array.range 12).map fun i =>
    UInt32.ofNat (if i % 3 = 0 then i else 0xffff0000 + i)⟩

/-- In the upper row, the frame is drawn over the background in one cell and over what the canvas
showed in the other; in the lower row, nothing is disposed of. -/
theorem compose_straddling_gainsFrame :
    disposing.WellShaped ∧
      stripes.HasShape straddling.rect.width straddling.rect.height .argb8888 ∧
      (∃ drawn, disposing.currentCanvas.GainsFrame disposing.background straddling stripes drawn ∧
        (disposing.compose straddling stripes {} ({} : HeapPool)).output.pixel? 1 0 =
          drawn.image.pixel? 1 0) ∧
      (disposing.compose straddling stripes {} ({} : HeapPool)).output.pixels =
        #[0xff0000ff, 0xff0000ff, 0xffff0001, 0xff00ff00, 0xff00ff00, 0xffff0007] := by
  have hwell : disposing.WellShaped := by
    rintro _ ⟨⟩
    exact ⟨rfl, rfl, rfl⟩
  have hshape : stripes.HasShape straddling.rect.width straddling.rect.height .argb8888 :=
    ⟨rfl, rfl, rfl, by simp [stripes, straddling]⟩
  refine ⟨hwell, hshape, ?_, by decide +kernel⟩
  obtain ⟨drawn, -, -, hgains, -, hpixel⟩ :=
    Compositor.compose_gainsFrame hwell hshape {} ({} : HeapPool)
  refine ⟨drawn, hgains, (hpixel 1 0).trans ?_⟩
  exact Option.map_id_apply

end WebP
