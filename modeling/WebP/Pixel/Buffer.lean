import WebP.Pixel.Basic

/-!
# Pixel buffers

A pixel buffer holds the pixels of an image row by row, one word for each in the layout of the
buffer.

## Main definitions

* `WebP.PixelBuffer`, with `PixelBuffer.new`, `PixelBuffer.reshape` and `PixelBuffer.pixel?`.
* `WebP.resized`: an array cut, or extended by zeros, to a length.

## Main results

* `WebP.PixelBuffer.WellFormed.reshape`: a reshaped buffer has as many words as its shape says.
-/

namespace WebP

/-- The array cut, or extended by zeros, to the length `n`. -/
def resized (words : Array UInt32) (n : Nat) : Array UInt32 :=
  words.take n ++ Array.replicate (n - words.size) 0

@[simp] theorem size_resized (words : Array UInt32) (n : Nat) : (resized words n).size = n := by
  simp only [resized, Array.take_eq_extract, Array.size_append, Array.size_extract,
    Array.size_replicate]
  omega

/-- The pixels of an image, row by row. -/
structure PixelBuffer where
  width : Nat := 0
  height : Nat := 0
  layout : ColorLayout := .argb8888
  pixels : Array UInt32 := #[]
deriving DecidableEq, Repr, Inhabited

namespace PixelBuffer

/-- The buffer has as many words as its width and height say. -/
def WellFormed (buffer : PixelBuffer) : Prop :=
  buffer.pixels.size = buffer.width * buffer.height

/-- Gives the buffer a shape and a layout. The words stay where they are; at the end they are cut
off, or zeros are added. -/
def reshape (buffer : PixelBuffer) (width height : Nat) (layout : ColorLayout) : PixelBuffer where
  width := width
  height := height
  layout := layout
  pixels := resized buffer.pixels (width * height)

/-- A buffer of zeros. -/
def new (width height : Nat) (layout : ColorLayout) : PixelBuffer :=
  ({} : PixelBuffer).reshape width height layout

/-- The place of the pixel at `x`, `y` among the words. -/
def index (buffer : PixelBuffer) (x y : Nat) : Nat := y * buffer.width + x

/-- The pixel at `x`, `y`, if it lies inside the buffer. -/
def pixel? (buffer : PixelBuffer) (x y : Nat) : Option UInt32 :=
  if x < buffer.width ∧ y < buffer.height then buffer.pixels[buffer.index x y]? else none

/-- Sets every pixel to a word. -/
def fill (buffer : PixelBuffer) (word : UInt32) : PixelBuffer :=
  { buffer with pixels := buffer.pixels.map fun _ => word }

/-- The buffer with one word replaced. -/
def set (buffer : PixelBuffer) (i : Nat) (word : UInt32) : PixelBuffer :=
  { buffer with pixels := buffer.pixels.setIfInBounds i word }

/-- The size of the pixels in their layout, in bytes. -/
def byteSize (buffer : PixelBuffer) : Nat := buffer.pixels.size * buffer.layout.bytesPerPixel

/-- A reshaped buffer has as many words as its shape says. -/
theorem WellFormed.reshape (buffer : PixelBuffer) (width height : Nat) (layout : ColorLayout) :
    (buffer.reshape width height layout).WellFormed := size_resized _ _

theorem WellFormed.fill {buffer : PixelBuffer} (h : buffer.WellFormed) (word : UInt32) :
    (buffer.fill word).WellFormed := by
  simpa [WellFormed, PixelBuffer.fill] using h

theorem WellFormed.set {buffer : PixelBuffer} (h : buffer.WellFormed) (i : Nat) (word : UInt32) :
    (buffer.set i word).WellFormed := by
  simpa [WellFormed, PixelBuffer.set] using h

/-- A pixel inside the shape lies inside the words. -/
theorem index_lt {buffer : PixelBuffer} {x y : Nat} (hx : x < buffer.width)
    (hy : y < buffer.height) : buffer.index x y < buffer.width * buffer.height := by
  calc buffer.index x y < y * buffer.width + buffer.width := Nat.add_lt_add_left hx _
    _ = (y + 1) * buffer.width := (Nat.succ_mul y buffer.width).symm
    _ ≤ buffer.height * buffer.width := Nat.mul_le_mul_right _ hy
    _ = buffer.width * buffer.height := Nat.mul_comm _ _

end PixelBuffer

end WebP
