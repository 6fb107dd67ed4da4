import Mathlib.Order.MinMax
import WebP.Proofs.Playback.Cells

/-!
# Small canvases and large ones

A canvas that is made smaller shows every pixel of the full canvas whose coordinates are multiples
of the sample size, as long as the edges of every rectangle that is drawn or cleared fall between
the cells. The right and the lower edge of the canvas itself always do, even if a part of a cell is
cut off there.

## Main definitions

* `WebP.PixelBuffer.IsSampleOf`: a buffer with the pixels of another at multiples of a number.
* `WebP.Rect.AlignedTo`: the edges of a rectangle fall between the cells.
* `WebP.Canvas.IsSampleOf`: a smaller canvas on which the same frames were drawn.

## Main results

* `WebP.Canvas.IsSampleOf.addFrame`: a frame whose edges fall between the cells keeps the canvases
  related.
-/

namespace WebP

/-- The buffer has the pixels of `large` whose coordinates are multiples of the sample size. A row
or column of `large` that is left over at the end is dropped. -/
structure PixelBuffer.IsSampleOf (small large : PixelBuffer) (sampleSize : Nat) : Prop where
  width_eq : small.width = large.width / sampleSize
  height_eq : small.height = large.height / sampleSize
  layout_eq : small.layout = large.layout
  pixel?_eq : ∀ x < small.width, ∀ y < small.height,
    small.pixel? x y = large.pixel? (x * sampleSize) (y * sampleSize)

/-! ### Edges between cells -/

/-- The left and the upper edge of the rectangle are multiples of the sample size. So are the right
and the lower edge, unless they are those of the canvas. -/
@[mk_iff]
structure Rect.AlignedTo (rect : Rect) (canvas : Size) (sampleSize : Nat) : Prop where
  left : sampleSize ∣ rect.x
  top : sampleSize ∣ rect.y
  right : sampleSize ∣ rect.right ∨ rect.right = canvas.width
  bottom : sampleSize ∣ rect.bottom ∨ rect.bottom = canvas.height

instance (rect : Rect) (canvas : Size) (sampleSize : Nat) :
    Decidable (rect.AlignedTo canvas sampleSize) :=
  decidable_of_iff _ (rect.alignedTo_iff canvas sampleSize).symm

section Edges

variable {sampleSize cell edge length : Nat}

/-- A cell lies behind a lower edge if the pixel that it shows does. -/
theorem min_div_le_iff (positive : 0 < sampleSize) (aligned : sampleSize ∣ edge)
    (hcell : cell < length / sampleSize) :
    min (edge / sampleSize) (length / sampleSize) ≤ cell ↔
      min edge length ≤ cell * sampleSize := by
  have hpixel : cell * sampleSize < length := mul_lt_of_lt_div hcell
  obtain ⟨k, rfl⟩ := aligned
  rw [min_le_iff, min_le_iff, or_iff_left (Nat.not_le.mpr hcell),
    or_iff_left (Nat.not_le.mpr hpixel), Nat.mul_div_cancel_left k positive, Nat.mul_comm,
    Nat.mul_le_mul_right_iff positive]

/-- A cell lies before an upper edge if the pixel that it shows does. -/
theorem lt_min_div_iff (positive : 0 < sampleSize)
    (aligned : sampleSize ∣ edge ∨ edge = length) (hcell : cell < length / sampleSize) :
    cell < min (edge / sampleSize) (length / sampleSize) ↔
      cell * sampleSize < min edge length := by
  have hpixel : cell * sampleSize < length := mul_lt_of_lt_div hcell
  rw [lt_min_iff, lt_min_iff, and_iff_left hcell, and_iff_left hpixel]
  rcases aligned with ⟨k, rfl⟩ | rfl
  · rw [Nat.mul_div_cancel_left k positive, Nat.mul_comm sampleSize,
      Nat.mul_lt_mul_right positive]
  · -- every cell lies before the end of the canvas, and so does the pixel that it shows
    exact iff_of_true hcell hpixel

end Edges

namespace Canvas

variable {canvas : Size} {sampleSize : Nat} {small large : Canvas} {rect : Rect}

/-- The small canvas has the size of the large one divided by the sample size and shows its pixels
at multiples of it, and the frame drawn last is the same on both, with its edges between cells. -/
structure IsSampleOf (small large : Canvas) (canvas : Size) (sampleSize : Nat) : Prop where
  small_shape : small.HasShape ⟨canvas.width / sampleSize, canvas.height / sampleSize⟩ sampleSize
  large_shape : large.HasShape canvas 1
  previous_eq : small.previous = large.previous
  previous_aligned : ∀ last ∈ large.previous, last.1.AlignedTo canvas sampleSize
  pixel?_eq : ∀ x < canvas.width / sampleSize, ∀ y < canvas.height / sampleSize,
    small.image.pixel? x y = large.image.pixel? (x * sampleSize) (y * sampleSize)

/-- Blank canvases show nothing. -/
theorem isSampleOf_blank (canvas : Size) (sampleSize : Nat) :
    (blank ⟨canvas.width / sampleSize, canvas.height / sampleSize⟩ sampleSize).IsSampleOf
      (blank canvas 1) canvas sampleSize where
  small_shape := hasShape_blank _ _
  large_shape := hasShape_blank _ _
  previous_eq := rfl
  previous_aligned _ hnone := nomatch hnone
  pixel?_eq x hx y hy := by
    rw [pixel?_image_blank hx hy,
      pixel?_image_blank (mul_lt_of_lt_div hx) (mul_lt_of_lt_div hy)]

namespace IsSampleOf

/-- A rectangle with its edges between cells covers a cell if it covers the pixel that the cell
shows. -/
theorem region_contains_iff (h : small.IsSampleOf large canvas sampleSize)
    (positive : 0 < sampleSize) (aligned : rect.AlignedTo canvas sampleSize) {x y : Nat}
    (hx : x < canvas.width / sampleSize) (hy : y < canvas.height / sampleSize) :
    (small.region rect).Contains x y ↔
      (large.region rect).Contains (x * sampleSize) (y * sampleSize) := by
  simp only [Region.Contains, region, h.small_shape.size_eq, h.small_shape.sampleSize_eq,
    h.large_shape.size_eq, h.large_shape.sampleSize_eq, Nat.div_one]
  rw [min_div_le_iff positive aligned.left hx, lt_min_div_iff positive aligned.right hx,
    min_div_le_iff positive aligned.top hy, lt_min_div_iff positive aligned.bottom hy]

/-- Canvases stay related if the cells of the small one are painted like the pixels they show. -/
theorem paint (h : small.IsSampleOf large canvas sampleSize) {region region' : Region}
    {change change' : Nat → Nat → Pixel → Pixel}
    (hregion : ∀ x < canvas.width / sampleSize, ∀ y < canvas.height / sampleSize,
      (region.Contains x y ↔ region'.Contains (x * sampleSize) (y * sampleSize)))
    (hchange : ∀ x y, change x y = change' (x * sampleSize) (y * sampleSize)) :
    (small.paint region change).IsSampleOf (large.paint region' change') canvas sampleSize where
  small_shape := h.small_shape.paint region change
  large_shape := h.large_shape.paint region' change'
  previous_eq := h.previous_eq
  previous_aligned := h.previous_aligned
  pixel?_eq x hx y hy := by
    simp only [pixel?_image_paint, h.pixel?_eq x hx y hy, hregion x hx y hy, hchange]

theorem fill (h : small.IsSampleOf large canvas sampleSize) (positive : 0 < sampleSize)
    (aligned : rect.AlignedTo canvas sampleSize) (color : Pixel) :
    (small.fill rect color).IsSampleOf (large.fill rect color) canvas sampleSize :=
  h.paint (fun _ hx _ hy => h.region_contains_iff positive aligned hx hy) fun _ _ => rfl

/-- For a cell the pixel of a frame is sampled that is drawn at the pixel that the cell shows. -/
theorem sample_eq (h : small.IsSampleOf large canvas sampleSize) (cell start length : Nat) :
    small.sample cell start length = large.sample (cell * sampleSize) start length := by
  simp only [sample, h.small_shape.sampleSize_eq, h.large_shape.sampleSize_eq, Nat.mul_one]

theorem draw (h : small.IsSampleOf large canvas sampleSize) (positive : 0 < sampleSize)
    (aligned : rect.AlignedTo canvas sampleSize) (blend : BlendMode) (decoded : PixelBuffer) :
    (small.draw rect blend decoded).IsSampleOf (large.draw rect blend decoded) canvas
      sampleSize := by
  refine h.paint (fun _ hx _ hy => h.region_contains_iff positive aligned hx hy) fun x y => ?_
  simp only [h.sample_eq]

theorem restart (h : small.IsSampleOf large canvas sampleSize) :
    small.restart.IsSampleOf large.restart canvas sampleSize := by
  rw [h.small_shape.restart_eq, h.large_shape.restart_eq]
  exact isSampleOf_blank canvas sampleSize

/-- Room is made for a frame in the same way on both canvases. -/
theorem prepare (h : small.IsSampleOf large canvas sampleSize) (positive : 0 < sampleSize)
    (background : Pixel) {place : Placement} (aligned : place.rect.AlignedTo canvas sampleSize) :
    (small.prepare background place).IsSampleOf (large.prepare background place) canvas
      sampleSize := by
  have hstart : (if place.index = 0 then small.restart else small).IsSampleOf
      (if place.index = 0 then large.restart else large) canvas sampleSize := by
    split
    · exact h.restart
    · exact h
  simp only [Canvas.prepare]
  -- from here on it does not matter whether the canvases were started afresh
  generalize (if place.index = 0 then small.restart else small) = small at hstart
  generalize (if place.index = 0 then large.restart else large) = large at hstart
  have haligned := hstart.previous_aligned
  rw [hstart.previous_eq]
  rcases hprevious : large.previous with _ | ⟨last, _ | _⟩ <;> cases hblend : place.blend
  · exact hstart
  · exact hstart.fill positive aligned _
  · exact hstart
  · exact hstart.fill positive aligned _
  · exact hstart.fill positive (haligned _ hprevious) _
  · exact hstart.fill positive (haligned _ hprevious) _

/-- **One more frame.** Canvases stay related if a frame with its edges between cells is drawn on
both. -/
theorem addFrame (h : small.IsSampleOf large canvas sampleSize) (positive : 0 < sampleSize)
    (background : Pixel) {place : Placement} (aligned : place.rect.AlignedTo canvas sampleSize)
    (decoded : PixelBuffer) :
    (small.addFrame background place decoded).IsSampleOf
      (large.addFrame background place decoded) canvas sampleSize := by
  have hdrawn := (h.prepare positive background aligned).draw positive aligned place.blend decoded
  refine ⟨?_, ?_, rfl, ?_, hdrawn.pixel?_eq⟩
  · exact h.small_shape.addFrame background place decoded
  · exact h.large_shape.addFrame background place decoded
  · rintro _ ⟨⟩
    exact aligned

/-- A copy of the small canvas shows the pixels of a copy of the large one. -/
theorem copyInto (h : small.IsSampleOf large canvas sampleSize) {first second : PixelBuffer}
    (layout_eq : first.layout = second.layout) :
    (small.copyInto first).IsSampleOf (large.copyInto second) sampleSize where
  width_eq := by
    change small.size.width = large.size.width / sampleSize
    rw [h.small_shape.size_eq, h.large_shape.size_eq]
  height_eq := by
    change small.size.height = large.size.height / sampleSize
    rw [h.small_shape.size_eq, h.large_shape.size_eq]
  layout_eq := layout_eq
  pixel?_eq x hx y hy := by
    change x < small.size.width at hx
    change y < small.size.height at hy
    rw [h.small_shape.size_eq] at hx hy
    rw [pixel?_copyInto, pixel?_copyInto, h.pixel?_eq x hx y hy, layout_eq]

end IsSampleOf

end Canvas

/-- Smaller copies of one image, with and without a sample size. -/
theorem PixelBuffer.isSampleOf_downsampleInto {canvas : Size} {sampleSize : Nat}
    {first second : PixelBuffer} {layout : ColorLayout}
    (h₁ : first.HasShape (canvas.width / sampleSize) (canvas.height / sampleSize) layout)
    (h₂ : second.HasShape canvas.width canvas.height layout) (image : PixelBuffer) :
    (image.downsampleInto sampleSize first).IsSampleOf (image.downsampleInto 1 second)
      sampleSize := by
  have hshape₁ := h₁.downsampleInto image sampleSize
  have hshape₂ := h₂.downsampleInto image 1
  refine ⟨?_, ?_, ?_, fun x hx y hy => ?_⟩
  · rw [hshape₁.width_eq, hshape₂.width_eq]
  · rw [hshape₁.height_eq, hshape₂.height_eq]
  · rw [hshape₁.layout_eq, hshape₂.layout_eq]
  · rw [hshape₁.width_eq] at hx
    rw [hshape₁.height_eq] at hy
    rw [pixel?_downsampleInto h₁ image sampleSize hx hy,
      pixel?_downsampleInto h₂ image 1 (mul_lt_of_lt_div hx) (mul_lt_of_lt_div hy), Nat.mul_one,
      Nat.mul_one]

end WebP
