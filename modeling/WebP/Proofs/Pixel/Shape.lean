import WebP.Pixel.Downsample
import WebP.Pixel.Pool

/-!
# The shape of buffers from a pool

Nothing is known of the words in a buffer that a pool hands out, but its shape and its layout are
those that were asked for. A copy made into such a buffer does not depend on what it held before.

## Main definitions

* `WebP.PixelBuffer.HasShape`: the shape and the layout of a buffer.
* `WebP.LawfulBufferPool`: a pool hands out buffers of the shape asked for.

## Main results

* `WebP.PixelBuffer.downsampleInto_congr`: the old words of the output are lost.
-/

namespace WebP

namespace PixelBuffer

/-- The buffer has this shape and this layout, and as many words as the shape says. -/
structure HasShape (buffer : PixelBuffer) (width height : Nat) (layout : ColorLayout) : Prop where
  width_eq : buffer.width = width
  height_eq : buffer.height = height
  layout_eq : buffer.layout = layout
  size_eq : buffer.pixels.size = width * height

variable {buffer first second : PixelBuffer} {width height : Nat} {layout : ColorLayout}

theorem hasShape_reshape (buffer : PixelBuffer) (width height : Nat) (layout : ColorLayout) :
    (buffer.reshape width height layout).HasShape width height layout :=
  ⟨rfl, rfl, rfl, size_resized _ _⟩

/-- Buffers of one shape with the same words are equal. -/
theorem HasShape.ext (h₁ : first.HasShape width height layout)
    (h₂ : second.HasShape width height layout) (hpixels : first.pixels = second.pixels) :
    first = second := by
  obtain ⟨_, _, _, _⟩ := first
  obtain ⟨_, _, _, _⟩ := second
  obtain ⟨rfl, rfl, rfl, -⟩ := h₁
  obtain ⟨rfl, rfl, rfl, -⟩ := h₂
  cases hpixels
  rfl

theorem HasShape.fill (h : buffer.HasShape width height layout) (word : UInt32) :
    (buffer.fill word).HasShape width height layout :=
  ⟨h.width_eq, h.height_eq, h.layout_eq, by simp [PixelBuffer.fill, h.size_eq]⟩

/-- Nothing but the shape of a filled buffer is left of what it was. -/
theorem HasShape.fill_congr (h₁ : first.HasShape width height layout)
    (h₂ : second.HasShape width height layout) (word : UInt32) :
    first.fill word = second.fill word := by
  refine (h₁.fill word).ext (h₂.fill word) ?_
  simp only [PixelBuffer.fill, Array.map_const', h₁.size_eq, h₂.size_eq]

/-- A smaller copy has the shape of the buffer that it is made into. -/
theorem HasShape.downsampleInto (h : buffer.HasShape width height layout) (source : PixelBuffer)
    (sampleSize : Nat) :
    (source.downsampleInto sampleSize buffer).HasShape width height layout :=
  ⟨h.width_eq, h.height_eq, h.layout_eq, by simp [PixelBuffer.downsampleInto, h.size_eq]⟩

/-- A smaller copy of an image does not depend on what the buffer for it held before. -/
theorem downsampleInto_congr (source : PixelBuffer) (sampleSize : Nat)
    (h₁ : first.HasShape width height layout) (h₂ : second.HasShape width height layout) :
    source.downsampleInto sampleSize first = source.downsampleInto sampleSize second := by
  have hshape₁ := h₁.downsampleInto source sampleSize
  have hshape₂ := h₂.downsampleInto source sampleSize
  refine hshape₁.ext hshape₂ (Array.ext ?_ fun i _ _ => ?_)
  · rw [hshape₁.size_eq, hshape₂.size_eq]
  · simp only [PixelBuffer.downsampleInto, Array.getElem_mapIdx, h₁.width_eq, h₂.width_eq,
      h₁.layout_eq, h₂.layout_eq]

end PixelBuffer

/-- A pool that hands out buffers of the shape and the layout asked for, whatever was given back
to it before. -/
class LawfulBufferPool (π : Type) [BufferPool π] : Prop where
  obtain_hasShape (pool : π) (width height : Nat) (layout : ColorLayout) :
    (BufferPool.obtain pool width height layout).1.HasShape width height layout

instance : LawfulBufferPool HeapPool where
  obtain_hasShape pool width height layout := by
    change (pool.obtain width height layout).1.HasShape width height layout
    unfold HeapPool.obtain
    split
    · exact PixelBuffer.hasShape_reshape _ _ _ _
    · exact PixelBuffer.hasShape_reshape _ _ _ _

end WebP
