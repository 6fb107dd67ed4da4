/-!
# The header of an alpha plane

A lossy image has no alpha of its own; its alpha plane is stored beside it and begins with one
byte that says how the plane is coded.
-/

namespace WebP

/-- How an alpha plane is compressed. -/
inductive AlphaCompression where
  | uncompressed
  | lossless
deriving DecidableEq, Repr, Inhabited

def AlphaCompression.text : AlphaCompression → String
  | .uncompressed => "uncompressed"
  | .lossless => "lossless"

/-- The prediction that was applied to an alpha plane. -/
inductive AlphaFilter where
  | none
  | horizontal
  | vertical
  | gradient
deriving DecidableEq, Repr, Inhabited

namespace AlphaFilter

/-- The filter with a two-bit code. -/
def ofCode : Nat → AlphaFilter
  | 0 => .none
  | 1 => .horizontal
  | 2 => .vertical
  | _ => .gradient

def text : AlphaFilter → String
  | .none => "none"
  | .horizontal => "horizontal"
  | .vertical => "vertical"
  | .gradient => "gradient"

end AlphaFilter

/-- The fields of the first byte of an alpha plane. -/
structure AlphaHeader where
  compression : AlphaCompression
  filter : AlphaFilter
  /-- Zero for none, one for a reduction of the number of levels. -/
  preprocessing : Nat
deriving DecidableEq, Repr, Inhabited

end WebP
