import WebP.Geometry

/-!
# The place of a frame in an animation

Each frame of an animation covers a rectangle of the canvas. It is either blended over what the
canvas holds there or replaces it, and before the next frame its rectangle is either kept or
cleared to the background.
-/

namespace WebP

/-- What happens to the rectangle of a frame before the next frame is drawn. -/
inductive Disposal where
  | keep
  | background
deriving DecidableEq, Repr, Inhabited

def Disposal.text : Disposal → String
  | .keep => "none"
  | .background => "background"

/-- How the pixels of a frame meet those of the canvas. -/
inductive BlendMode where
  | «over»
  | replace
deriving DecidableEq, Repr, Inhabited

def BlendMode.text : BlendMode → String
  | .over => "blend"
  | .replace => "no blend"

/-- Where a frame stands in the order of the animation and on the canvas, and how it is drawn. -/
structure Placement where
  index : Nat
  rect : Rect
  dispose : Disposal
  blend : BlendMode
deriving DecidableEq, Repr, Inhabited

end WebP
