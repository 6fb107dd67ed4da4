/-!
# Layouts of pixels

Pixels are handed out either with eight bits for each of alpha, red, green and blue or, without
alpha, with five, six and five bits.
-/

namespace WebP

/-- The layout of the pixels of a buffer. -/
inductive ColorLayout where
  | argb8888
  | rgb565
deriving DecidableEq, Repr, Inhabited

namespace ColorLayout

def text : ColorLayout → String
  | .argb8888 => "ARGB_8888"
  | .rgb565 => "RGB_565"

/-- The number of bytes that one pixel takes. -/
def bytesPerPixel : ColorLayout → Nat
  | .argb8888 => 4
  | .rgb565 => 2

end ColorLayout

end WebP
