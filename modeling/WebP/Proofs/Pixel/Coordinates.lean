import WebP.Proofs.Pixel.Shape

/-!
# Pixels by their coordinates

The words of a buffer are numbered row by row, and the number of a pixel gives back its
coordinates. So what is said of every word by its number can be said of every pixel by its
coordinates, and a buffer is known if its shape and the pixels at all coordinates are.

## Main results

* `WebP.PixelBuffer.HasShape.ext_pixel?`: buffers of one shape with the same pixels are equal.
* `WebP.PixelBuffer.pixel?_downsampleInto`: the pixels of a smaller copy.
-/

namespace WebP

/-- The size of an image made smaller, if it is not smaller than the sample size. -/
theorem downsampledSize_of_le {size : Size} {sampleSize : Nat} (positive : 0 < sampleSize)
    (hwidth : sampleSize ≤ size.width) (hheight : sampleSize ≤ size.height) :
    downsampledSize size sampleSize = ⟨size.width / sampleSize, size.height / sampleSize⟩ := by
  have hdiv {length : Nat} (h : sampleSize ≤ length) :
      max (length / max sampleSize 1) 1 = length / sampleSize := by
    rw [Nat.max_eq_left positive, Nat.max_eq_left (Nat.div_pos h positive)]
  rw [downsampledSize, hdiv hwidth, hdiv hheight]

/-- An image that is not made smaller keeps its size. -/
theorem downsampledSize_one {size : Size} (hwidth : 0 < size.width) (hheight : 0 < size.height) :
    downsampledSize size 1 = size := by
  rw [downsampledSize_of_le Nat.one_pos hwidth hheight, Nat.div_one, Nat.div_one]

/-- The pixel that a cell shows lies in the image if the cell lies in the smaller one. -/
theorem mul_lt_of_lt_div {cell length sampleSize : Nat} (h : cell < length / sampleSize) :
    cell * sampleSize < length := by
  refine Nat.lt_of_not_le fun hle => absurd h (Nat.not_lt.mpr ?_)
  exact Nat.div_le_of_le_mul (by rwa [Nat.mul_comm])

namespace PixelBuffer

variable {buffer first second output : PixelBuffer} {width height x y : Nat}
  {layout : ColorLayout}

theorem index_mod_width (hx : x < buffer.width) : buffer.index x y % buffer.width = x :=
  Nat.mul_add_mod_of_lt hx

theorem index_div_width (hx : x < buffer.width) : buffer.index x y / buffer.width = y := by
  have hpos : 0 < buffer.width := Nat.zero_lt_of_lt hx
  rw [index, Nat.add_comm, Nat.add_mul_div_right _ _ hpos, Nat.div_eq_of_lt hx, Nat.zero_add]

/-- Each word of a buffer is the pixel at some coordinates. -/
theorem index_mod_div (buffer : PixelBuffer) (i : Nat) :
    buffer.index (i % buffer.width) (i / buffer.width) = i := by
  rw [index, Nat.mul_comm]
  exact Nat.div_add_mod i buffer.width

theorem pixel?_of_lt (hx : x < buffer.width) (hy : y < buffer.height) :
    buffer.pixel? x y = buffer.pixels[buffer.index x y]? :=
  if_pos ⟨hx, hy⟩

namespace HasShape

/-- There is a pixel at all coordinates inside the shape. -/
theorem exists_pixel? (h : buffer.HasShape width height layout) (hx : x < width)
    (hy : y < height) : ∃ word, buffer.pixel? x y = some word := by
  obtain ⟨rfl, rfl, -, hsize⟩ := h
  have hlt : buffer.index x y < buffer.pixels.size := by
    rw [hsize]
    exact index_lt hx hy
  exact ⟨_, (pixel?_of_lt hx hy).trans (Array.getElem?_eq_getElem hlt)⟩

/-- Buffers of one shape with the same pixels are equal. -/
theorem ext_pixel? (h₁ : first.HasShape width height layout)
    (h₂ : second.HasShape width height layout)
    (hpixels : ∀ x < width, ∀ y < height, first.pixel? x y = second.pixel? x y) :
    first = second := by
  refine h₁.ext h₂ (Array.ext_getElem? fun i => ?_)
  rcases Nat.lt_or_ge i (width * height) with hi | hi
  · have hpos : 0 < width := Nat.pos_of_mul_pos_right (Nat.zero_lt_of_lt hi)
    have hx : i % width < width := Nat.mod_lt i hpos
    have hy : i / width < height := Nat.div_lt_of_lt_mul hi
    have hpixel := hpixels _ hx _ hy
    obtain ⟨rfl, rfl, -, -⟩ := h₁
    rw [pixel?_of_lt hx hy, index_mod_div,
      pixel?_of_lt (by rwa [h₂.width_eq]) (by rwa [h₂.height_eq]), ← h₂.width_eq,
      index_mod_div] at hpixel
    exact hpixel
  · rw [Array.getElem?_eq_none (by rwa [h₁.size_eq]), Array.getElem?_eq_none (by rwa [h₂.size_eq])]

end HasShape

/-- A word that is changed by its number is a pixel that is changed. -/
theorem pixel?_mapIdx (buffer : PixelBuffer) (change : Nat → UInt32 → UInt32) (x y : Nat) :
    ({ buffer with pixels := buffer.pixels.mapIdx change } : PixelBuffer).pixel? x y =
      (buffer.pixel? x y).map (change (buffer.index x y)) := by
  unfold pixel?
  split
  · exact Array.getElem?_mapIdx
  · rfl

/-- If each word is changed, so is each pixel, whatever the layouts are. -/
theorem pixel?_map (width height : Nat) (layout layout' : ColorLayout) (pixels : Array UInt32)
    (change : UInt32 → UInt32) (x y : Nat) :
    (PixelBuffer.mk width height layout (pixels.map change)).pixel? x y =
      ((PixelBuffer.mk width height layout' pixels).pixel? x y).map change := by
  simp only [pixel?, index]
  split
  · exact Array.getElem?_map
  · rfl

/-- A buffer that is filled with a word has it everywhere. -/
theorem HasShape.pixel?_fill (h : buffer.HasShape width height layout) (word : UInt32)
    (hx : x < width) (hy : y < height) : (buffer.fill word).pixel? x y = some word := by
  obtain ⟨old, hold⟩ := h.exists_pixel? hx hy
  rw [PixelBuffer.fill, pixel?_map, hold]
  rfl

/-- A smaller copy shows the pixels of its source at multiples of the sample size. -/
theorem pixel?_downsampleInto (h : output.HasShape width height layout) (source : PixelBuffer)
    (sampleSize : Nat) (hx : x < width) (hy : y < height) :
    (source.downsampleInto sampleSize output).pixel? x y =
      some (layout.convert
        ((source.pixel? (x * sampleSize) (y * sampleSize)).getD Pixel.transparent)) := by
  obtain ⟨word, hword⟩ := h.exists_pixel? hx hy
  obtain ⟨rfl, rfl, rfl, -⟩ := h
  rw [downsampleInto, pixel?_mapIdx, hword, Option.map_some, index_mod_width hx,
    index_div_width hx]

end PixelBuffer

end WebP
