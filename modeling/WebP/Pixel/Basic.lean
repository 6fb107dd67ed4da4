import WebP.Pixel.Layout

/-!
# Pixels

A pixel is a word of 32 bits that holds alpha, red, green and blue from its highest byte down.
Colours are not multiplied by alpha.

## Main definitions

* `WebP.Pixel.over`: a pixel blended over another.
* `WebP.ColorLayout.convert`: a pixel in a layout.
-/

namespace WebP

/-- A word with alpha, red, green and blue from its highest byte down. -/
abbrev Pixel := UInt32

namespace Pixel

/-- The pixel that shows nothing. -/
def transparent : Pixel := 0

def alpha (p : Pixel) : Nat := p.toNat / 0x1000000

def red (p : Pixel) : Nat := p.toNat / 0x10000 % 256

def green (p : Pixel) : Nat := p.toNat / 256 % 256

def blue (p : Pixel) : Nat := p.toNat % 256

/-- The pixel with the given channels, each less than 256. -/
def ofChannels (alpha red green blue : Nat) : Pixel :=
  .ofNat (alpha * 0x1000000 + red * 0x10000 + green * 256 + blue)

/-- What is left of the alpha of a pixel under one with alpha `alpha`. -/
def visibleAlpha (dst : Pixel) (alpha : Nat) : Nat := dst.alpha * (256 - alpha) / 256

/-- A colour channel of a blended pixel: the mean of the channels of the upper and the lower
pixel with weights `w₁` and `w₂`, by a multiplication with the scaled inverse of `w₁ + w₂`. -/
def blendChannel (w₁ w₂ c₁ c₂ : Nat) : Nat :=
  (c₁ * w₁ + c₂ * w₂) * (0x1000000 / (w₁ + w₂)) / 0x1000000 % 256

/-- The pixel `src` blended over `dst`. -/
def «over» (src dst : Pixel) : Pixel :=
  if src.alpha = 255 ∨ dst.alpha = 0 then
    src
  else if src.alpha = 0 then
    dst
  else
    let w₁ := src.alpha
    let w₂ := dst.visibleAlpha src.alpha
    ofChannels (w₁ + w₂) (blendChannel w₁ w₂ src.red dst.red)
      (blendChannel w₁ w₂ src.green dst.green) (blendChannel w₁ w₂ src.blue dst.blue)

/-- The five, six and five highest bits of red, green and blue. -/
def toRgb565 (p : Pixel) : UInt32 :=
  .ofNat (p.red / 8 * 2048 + p.green / 4 * 32 + p.blue / 8)

end Pixel

/-- A pixel in a layout, in the lowest bits of a word. -/
def ColorLayout.convert : ColorLayout → Pixel → UInt32
  | .argb8888, p => p
  | .rgb565, p => p.toRgb565

end WebP
