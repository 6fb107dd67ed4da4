import WebP.Proofs.Pixel.Coordinates
import WebP.Proofs.Playback.Drawing

/-!
# The cells of a canvas

A canvas is looked at through its cells. Painting is known cell by cell, and so are a copy of the
canvas and the canvas with a first frame: a cell that the frame covers shows the pixel of the
frame that is sampled for it, and every other cell is transparent.

## Main definitions

* `WebP.Canvas.image`: the canvas as a buffer of pixels.

## Main results

* `WebP.Canvas.pixel?_image_paint`: the cells of a canvas that is painted on.
* `WebP.Canvas.pixel?_image_addFrame_blank`: the cells of a canvas with a first frame.
-/

namespace WebP

/-- A pixel of a frame that meets the pixel below it. -/
def BlendMode.merge : BlendMode → Pixel → Pixel → Pixel
  | .over, source, below => Pixel.over source below
  | .replace, source, _ => source

/-- Over what is transparent a pixel stays as it is. -/
@[simp] theorem BlendMode.merge_transparent (blend : BlendMode) (source : Pixel) :
    blend.merge source Pixel.transparent = source := by
  cases blend with
  | «over» => exact if_pos (.inr rfl)
  | replace => rfl

namespace Canvas

variable {canvas : Canvas} {size : Size} {sampleSize x y : Nat}

/-- The canvas as a buffer of pixels. -/
def image (canvas : Canvas) : PixelBuffer :=
  ⟨canvas.size.width, canvas.size.height, .argb8888, canvas.pixels⟩

theorem HasShape.image (h : canvas.HasShape size sampleSize) :
    canvas.image.HasShape size.width size.height .argb8888 := by
  obtain ⟨rfl, -, harea⟩ := h
  exact ⟨rfl, rfl, rfl, harea⟩

/-- Painting changes the cells of the region and no others. -/
theorem pixel?_image_paint (canvas : Canvas) (region : Region)
    (change : Nat → Nat → Pixel → Pixel) (x y : Nat) :
    (canvas.paint region change).image.pixel? x y =
      (canvas.image.pixel? x y).map fun pixel =>
        if region.Contains x y then change x y pixel else pixel := by
  have hpaint := canvas.image.pixel?_mapIdx (fun i pixel =>
    if region.Contains (i % canvas.size.width) (i / canvas.size.width) then
      change (i % canvas.size.width) (i / canvas.size.width) pixel
    else pixel) x y
  refine hpaint.trans ?_
  by_cases hx : x < canvas.image.width
  · have hmod : canvas.image.index x y % canvas.size.width = x := PixelBuffer.index_mod_width hx
    have hdiv : canvas.image.index x y / canvas.size.width = y := PixelBuffer.index_div_width hx
    rw [hmod, hdiv]
  · rw [PixelBuffer.pixel?, if_neg fun h => hx h.1]
    rfl

/-- The pixel of a frame that is sampled for a cell. -/
def sampled (canvas : Canvas) (rect : Rect) (decoded : PixelBuffer) (x y : Nat) : Pixel :=
  (decoded.pixel? (canvas.sample x rect.x decoded.width)
    (canvas.sample y rect.y decoded.height)).getD Pixel.transparent

/-- Drawing changes the cells that the rectangle covers and no others. -/
theorem pixel?_image_draw (canvas : Canvas) (rect : Rect) (blend : BlendMode)
    (decoded : PixelBuffer) (x y : Nat) :
    (canvas.draw rect blend decoded).image.pixel? x y =
      (canvas.image.pixel? x y).map fun below =>
        if (canvas.region rect).Contains x y then
          blend.merge (canvas.sampled rect decoded x y) below
        else below := by
  rw [draw, pixel?_image_paint]
  cases blend with
  | «over» => rfl
  | replace => rfl

theorem image_addFrame (canvas : Canvas) (background : Pixel) (place : Placement)
    (decoded : PixelBuffer) :
    (canvas.addFrame background place decoded).image =
      ((canvas.prepare background place).draw place.rect place.blend decoded).image := rfl

theorem pixel?_image_blank (hx : x < size.width) (hy : y < size.height) :
    (blank size sampleSize).image.pixel? x y = some Pixel.transparent := by
  obtain ⟨pixel, hpixel⟩ := (hasShape_blank size sampleSize).image.exists_pixel? hx hy
  have hmem : pixel ∈ (blank size sampleSize).pixels := by
    rw [PixelBuffer.pixel?_of_lt hx hy] at hpixel
    exact Array.mem_of_getElem? hpixel
  rw [hpixel, Array.eq_of_mem_replicate hmem]

/-- A copy shows the cells of the canvas in the layout of the buffer for it. -/
theorem pixel?_copyInto (canvas : Canvas) (output : PixelBuffer) (x y : Nat) :
    (canvas.copyInto output).pixel? x y =
      (canvas.image.pixel? x y).map output.layout.convert :=
  PixelBuffer.pixel?_map _ _ _ _ _ _ x y

theorem HasShape.copyInto (h : canvas.HasShape size sampleSize) (output : PixelBuffer) :
    (canvas.copyInto output).HasShape size.width size.height output.layout := by
  obtain ⟨rfl, -, harea⟩ := h
  exact ⟨rfl, rfl, rfl, (Array.size_map ..).trans harea⟩

/-! ### The first frame -/

/-- To clear what is transparent changes nothing. -/
theorem fill_blank (rect : Rect) :
    (blank size sampleSize).fill rect Pixel.transparent = blank size sampleSize := by
  simp only [fill, paint, blank, Canvas.mk.injEq, and_true, true_and]
  refine Array.ext (by simp) fun i _ _ => ?_
  simp

/-- A first frame needs no room to be made for it. -/
theorem prepare_blank (background : Pixel) (place : Placement) :
    (blank size sampleSize).prepare background place = blank size sampleSize := by
  have hstart : (if place.index = 0 then (blank size sampleSize).restart
      else blank size sampleSize) = blank size sampleSize := by
    split
    · exact (hasShape_blank size sampleSize).restart_eq
    · rfl
  rw [prepare, hstart]
  cases hblend : place.blend with
  | «over» => rfl
  | replace => exact fill_blank place.rect

/-- **The first frame.** A cell that the frame covers shows the pixel that is sampled for it, and
the others are transparent. The way in which the frame is blended does not matter. -/
theorem pixel?_image_addFrame_blank (background : Pixel) (place : Placement)
    (decoded : PixelBuffer) (hx : x < size.width) (hy : y < size.height) :
    ((blank size sampleSize).addFrame background place decoded).image.pixel? x y =
      some (if ((blank size sampleSize).region place.rect).Contains x y then
          (blank size sampleSize).sampled place.rect decoded x y
        else Pixel.transparent) := by
  rw [image_addFrame, prepare_blank, pixel?_image_draw, pixel?_image_blank hx hy, Option.map_some,
    BlendMode.merge_transparent]

end Canvas

end WebP
