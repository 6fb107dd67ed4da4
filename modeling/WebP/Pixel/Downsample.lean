import WebP.Geometry
import WebP.Pixel.Buffer

/-!
# Downsampling

An image is made smaller by keeping every pixel whose coordinates are multiples of a sample size.

## Main definitions

* `WebP.downsampledSize`: the size of an image made smaller.
* `WebP.sampleSizeFor`: the sample size for a wanted size.
* `WebP.PixelBuffer.downsampleInto`: a smaller copy of an image.
-/

namespace WebP

/-- The size of an image made smaller, at least one pixel in each direction. -/
def downsampledSize (size : Size) (sampleSize : Nat) : Size :=
  let s := max sampleSize 1
  ⟨max (size.width / s) 1, max (size.height / s) 1⟩

/-- The ratio of a length to a wanted one, rounded down; one if nothing is wanted. -/
def lengthRatio (length target : Nat) : Nat := if target = 0 then 1 else length / target

/-- The greatest power of two that is not above `n`, or one for zero. -/
def floorPowerOfTwo (n : Nat) : Nat := 1 <<< n.log2

/-- The greatest power of two by which an image can be made smaller without falling below the
wanted size, or one if it is too small already. -/
def sampleSizeFor (size target : Size) : Nat :=
  floorPowerOfTwo
    (min (lengthRatio size.height target.height) (lengthRatio size.width target.width))

/-- Fills `output` with the pixels of `source` at multiples of the sample size, in the layout of
`output`. Where `source` has no pixel the output is transparent. -/
def PixelBuffer.downsampleInto (source : PixelBuffer) (sampleSize : Nat) (output : PixelBuffer) :
    PixelBuffer :=
  { output with
    pixels := output.pixels.mapIdx fun i _ =>
      let x := i % output.width
      let y := i / output.width
      output.layout.convert
        ((source.pixel? (x * sampleSize) (y * sampleSize)).getD Pixel.transparent) }

end WebP
