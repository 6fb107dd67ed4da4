import WebP.Event
import WebP.Pixel.Pool
import WebP.Playback.Canvas

/-!
# Compositing

A compositor draws the frames of one animation onto a canvas. The canvas is made in a scratch
array of a pool when the first frame is drawn, and goes back to the pool on a reset.

## Main definitions

* `WebP.Compositor`, with `Compositor.compose` and `Compositor.reset`.
-/

namespace WebP

/-- Draws the frames of an animation. -/
structure Compositor where
  /-- The size of the canvas, made smaller by the sample size. -/
  size : Size
  sampleSize : Nat
  /-- What a rectangle disposed of to the background is cleared to. -/
  background : Pixel
  /-- The canvas, if a frame has been drawn since the last reset. -/
  canvas : Option Canvas := none
deriving DecidableEq, Repr, Inhabited

namespace Compositor

/-- A compositor for an animation of the given size. -/
def new (canvas : Size) (sampleSize : Nat) (background : Pixel) : Compositor where
  size := downsampledSize canvas sampleSize
  sampleSize := max sampleSize 1
  background := background

/-- The size of the canvas in bytes. -/
def byteSize (compositor : Compositor) : Nat := compositor.canvas.elim 0 Canvas.byteSize

/-- What drawing a frame leads to. -/
structure Composed (π : Type) where
  compositor : Compositor
  pool : π
  /-- A copy of the canvas. -/
  output : PixelBuffer
  log : List Event

variable {π : Type} [BufferPool π]

/-- The canvas, made in a scratch array if there is none. -/
def obtainCanvas (compositor : Compositor) (pool : π) : Canvas × π :=
  match compositor.canvas with
  | some canvas => (canvas, pool)
  | none =>
    let (scratch, pool) := BufferPool.obtainScratch pool compositor.size.area
    (.ofScratch compositor.size compositor.sampleSize scratch, pool)

/-- Draws a frame, given by its place and its pixels, and copies the canvas into `output`. -/
def compose (compositor : Compositor) (place : Placement) (decoded output : PixelBuffer)
    (pool : π) : Composed π :=
  let (canvas, pool) := compositor.obtainCanvas pool
  let canvas := canvas.addFrame compositor.background place decoded
  { compositor := { compositor with canvas := some canvas }
    pool
    output := canvas.copyInto output
    log := [.composited place] }

/-- Gives the canvas back to the pool. -/
def reset (compositor : Compositor) (pool : π) : Compositor × π :=
  match compositor.canvas with
  | some canvas =>
    ({ compositor with canvas := none }, BufferPool.releaseScratch pool canvas.pixels)
  | none => (compositor, pool)

end Compositor

end WebP
