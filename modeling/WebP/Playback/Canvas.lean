import WebP.Frame.Placement
import WebP.Pixel.Downsample

/-!
# The canvas of an animation

Frames are drawn onto a canvas that keeps what earlier frames left. The canvas may be smaller
than the animation by a sample size; then the rectangle of a frame covers the cells between its
edges divided by the sample size, and a cell shows the pixel of the frame at its own coordinates
times the sample size.

## Main definitions

* `WebP.Canvas`: the pixels, and which frame was drawn last.
* `WebP.Canvas.region`: the cells that a rectangle covers.
* `WebP.Canvas.addFrame`: the canvas with one more frame.
-/

namespace WebP

/-- A block of cells; the right and the bottom edge are exclusive. -/
structure Region where
  left : Nat
  top : Nat
  right : Nat
  bottom : Nat
deriving DecidableEq, Repr, Inhabited

/-- The cell at `x`, `y` lies in the block. -/
def Region.Contains (region : Region) (x y : Nat) : Prop :=
  region.left ≤ x ∧ x < region.right ∧ region.top ≤ y ∧ y < region.bottom

instance (region : Region) (x y : Nat) : Decidable (region.Contains x y) :=
  inferInstanceAs (Decidable (_ ∧ _))

/-- The pixels that earlier frames left. -/
structure Canvas where
  size : Size
  sampleSize : Nat
  pixels : Array Pixel
  /-- The rectangle of the frame drawn last, and what is to happen to it. -/
  previous : Option (Rect × Disposal) := none
deriving DecidableEq, Repr, Inhabited

namespace Canvas

/-- A transparent canvas in the place of a scratch array. -/
def ofScratch (size : Size) (sampleSize : Nat) (scratch : Array UInt32) : Canvas where
  size := size
  sampleSize := sampleSize
  pixels := (resized scratch size.area).map fun _ => Pixel.transparent

/-- The cells that a rectangle covers. -/
def region (canvas : Canvas) (rect : Rect) : Region where
  left := min (rect.x / canvas.sampleSize) canvas.size.width
  top := min (rect.y / canvas.sampleSize) canvas.size.height
  right := min (rect.right / canvas.sampleSize) canvas.size.width
  bottom := min (rect.bottom / canvas.sampleSize) canvas.size.height

/-- Changes the cells of a region; `change` is given the coordinates of a cell and its pixel. -/
def paint (canvas : Canvas) (region : Region) (change : Nat → Nat → Pixel → Pixel) : Canvas :=
  { canvas with
    pixels := canvas.pixels.mapIdx fun i pixel =>
      let x := i % canvas.size.width
      let y := i / canvas.size.width
      if region.Contains x y then change x y pixel else pixel }

/-- Gives all cells of a rectangle one colour. -/
def fill (canvas : Canvas) (rect : Rect) (color : Pixel) : Canvas :=
  canvas.paint (canvas.region rect) fun _ _ _ => color

/-- The coordinate in a frame of length `length` of what the cell at `cell` shows, the frame
beginning at `start`. A cell that begins before the frame does shows its first row or column. -/
def sample (canvas : Canvas) (cell start length : Nat) : Nat :=
  min (cell * canvas.sampleSize - start) (length - 1)

/-- Draws the pixels of a frame into its rectangle. -/
def draw (canvas : Canvas) (rect : Rect) (blend : BlendMode) (decoded : PixelBuffer) : Canvas :=
  canvas.paint (canvas.region rect) fun x y below =>
    let source := (decoded.pixel? (canvas.sample x rect.x decoded.width)
      (canvas.sample y rect.y decoded.height)).getD Pixel.transparent
    match blend with
    | .over => Pixel.over source below
    | .replace => source

/-- The first frame starts on a transparent canvas. -/
def restart (canvas : Canvas) : Canvas :=
  { canvas with
    pixels := canvas.pixels.map fun _ => Pixel.transparent
    previous := none }

/-- The canvas on which a frame is drawn: transparent for the first frame; else cleared where the
frame before it is disposed of to the background, or, if that is not so and the frame replaces
what is below it, where the frame goes. -/
def prepare (canvas : Canvas) (background : Pixel) (place : Placement) : Canvas :=
  let canvas := if place.index = 0 then canvas.restart else canvas
  match canvas.previous, place.blend with
  | some (rect, .background), _ => canvas.fill rect background
  | _, .replace => canvas.fill place.rect Pixel.transparent
  | _, .over => canvas

/-- The canvas with one more frame. -/
def addFrame (canvas : Canvas) (background : Pixel) (place : Placement) (decoded : PixelBuffer) :
    Canvas :=
  { (canvas.prepare background place).draw place.rect place.blend decoded with
    previous := some (place.rect, place.dispose) }

/-- Copies the canvas into a buffer, which takes its shape and keeps its layout. -/
def copyInto (canvas : Canvas) (output : PixelBuffer) : PixelBuffer where
  width := canvas.size.width
  height := canvas.size.height
  layout := output.layout
  pixels := canvas.pixels.map output.layout.convert

/-- The size of the canvas in bytes. -/
def byteSize (canvas : Canvas) : Nat := canvas.pixels.size * 4

@[simp] theorem size_paint (canvas : Canvas) (region : Region)
    (change : Nat → Nat → Pixel → Pixel) :
    (canvas.paint region change).pixels.size = canvas.pixels.size := by
  simp [paint]

end Canvas

end WebP
