/-!
# Transforms of a lossless image

A lossless bitstream begins with a chain of transforms that undo a change made to the pixels
before they were coded.
-/

namespace WebP

/-- The four kinds of transform. -/
inductive TransformKind where
  | predictor
  | crossColor
  | subtractGreen
  | colorIndexing
deriving DecidableEq, Repr, Inhabited

namespace TransformKind

/-- All kinds, each at the place of its two-bit code. -/
def all : List TransformKind := [.predictor, .crossColor, .subtractGreen, .colorIndexing]

/-- The kind with a two-bit code. -/
def ofCode : Nat → TransformKind
  | 0 => .predictor
  | 1 => .crossColor
  | 2 => .subtractGreen
  | _ => .colorIndexing

def text : TransformKind → String
  | .predictor => "predictor"
  | .crossColor => "cross-color"
  | .subtractGreen => "subtract green"
  | .colorIndexing => "color indexing"

end TransformKind

/-- A transform with the size that its header gives. -/
inductive Transform where
  | predictor (blockSize : Nat)
  | crossColor (blockSize : Nat)
  | subtractGreen
  | colorIndexing (paletteSize : Nat)
deriving DecidableEq, Repr, Inhabited

namespace Transform

def kind : Transform → TransformKind
  | .predictor _ => .predictor
  | .crossColor _ => .crossColor
  | .subtractGreen => .subtractGreen
  | .colorIndexing _ => .colorIndexing

/-- A transform whose header is followed by an image of its own. No bit behind that image can be
found without decoding it. -/
def hasImage : Transform → Bool
  | .subtractGreen => false
  | _ => true

def text : Transform → String
  | .predictor blockSize => s!"predictor transform: block size {blockSize}"
  | .crossColor blockSize => s!"cross-color transform: block size {blockSize}"
  | .subtractGreen => "subtract green transform"
  | .colorIndexing paletteSize => s!"color indexing transform: {paletteSize} colors"

end Transform

end WebP
