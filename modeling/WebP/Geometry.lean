/-!
# Sizes and rectangles

Canvases, images and frames are measured in whole pixels. A rectangle is given by its left and
top edge and its size; its right and bottom edges are exclusive.
-/

namespace WebP

/-- A width and a height in pixels. -/
structure Size where
  width : Nat
  height : Nat
deriving DecidableEq, Repr, Inhabited

namespace Size

/-- The number of pixels. -/
def area (size : Size) : Nat := size.width * size.height

/-- The size written `WxH`. -/
def text (size : Size) : String := s!"{size.width}x{size.height}"

/-- The size written with each number in backquotes. -/
def quoted (size : Size) : String := s!"`{size.width}`x`{size.height}`"

end Size

/-- The place of a frame on its canvas. -/
structure Rect where
  x : Nat
  y : Nat
  width : Nat
  height : Nat
deriving DecidableEq, Repr, Inhabited

namespace Rect

/-- The exclusive right edge. -/
def right (rect : Rect) : Nat := rect.x + rect.width

/-- The exclusive bottom edge. -/
def bottom (rect : Rect) : Nat := rect.y + rect.height

/-- The width and the height of the rectangle. -/
def size (rect : Rect) : Size := ⟨rect.width, rect.height⟩

/-- The rectangle with its corner at the origin. -/
def ofSize (size : Size) : Rect := ⟨0, 0, size.width, size.height⟩

/-- No pixel of the rectangle lies outside the canvas. -/
def FitsWithin (rect : Rect) (canvas : Size) : Prop :=
  rect.right ≤ canvas.width ∧ rect.bottom ≤ canvas.height

instance (rect : Rect) (canvas : Size) : Decidable (rect.FitsWithin canvas) :=
  inferInstanceAs (Decidable (_ ∧ _))

/-- The rectangle as a log shows it. -/
def text (rect : Rect) : String :=
  s!"FrameRect \x7b x: {rect.x}, y: {rect.y}, width: {rect.width}, height: {rect.height} \x7d"

end Rect

end WebP
