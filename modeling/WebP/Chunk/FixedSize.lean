import WebP.Chunk.Header

/-!
# Structures of a fixed size

The extended header, the animation header and the header of a frame are runs of integers of
fixed width. Sizes are stored less one, and the offsets of a frame are stored halved.

## Main definitions

* `WebP.CanvasHeader`: the size of the canvas and what the file announces.
* `WebP.AnimationHeader`: the background and the loop count.
* `WebP.FrameHeader`: the rectangle, the duration and the flags of a frame.
-/

namespace WebP

open Cursor

/-- The extended header of a file. -/
structure CanvasHeader where
  flags : CanvasFlags
  canvas : Size
deriving DecidableEq, Repr, Inhabited

namespace CanvasHeader

def encodedLength : Nat := 10

/-- Reads an extended header. -/
def read : Read CanvasHeader := do
  let flags ← .field .vp8x "flags" .canvasFlags
  let width ← .field .vp8x "canvas_width" .oneBased
  let height ← .field .vp8x "canvas_height" .oneBased
  return ⟨flags, width, height⟩

end CanvasHeader

/-- The header of an animation. -/
structure AnimationHeader where
  /-- The background as a pixel, alpha in the highest byte. -/
  background : UInt32
  /-- How often the animation is repeated, or zero to repeat it for ever. -/
  loopCount : Nat
deriving DecidableEq, Repr, Inhabited

namespace AnimationHeader

def encodedLength : Nat := 6

/-- Reads an animation header. -/
def read : Read AnimationHeader := do
  let background ← .field .anim "background_color" (.nat 4)
  let loopCount ← .field .anim "loop_count" (.nat 2)
  return ⟨.ofNat background, loopCount⟩

end AnimationHeader

/-- The header of a frame of an animation. -/
structure FrameHeader where
  rect : Rect
  /-- How long the frame is shown, in milliseconds. -/
  duration : Nat
  flags : FrameFlags
deriving DecidableEq, Repr, Inhabited

namespace FrameHeader

def encodedLength : Nat := 16

/-- Reads the header of a frame. -/
def read : Read FrameHeader := do
  let x ← .field .anmf "x" (.nat 3)
  let y ← .field .anmf "y" (.nat 3)
  let width ← .field .anmf "width" .oneBased
  let height ← .field .anmf "height" .oneBased
  let duration ← .field .anmf "duration" (.nat 3)
  let flags ← .field .anmf "flags" .frameFlags
  return ⟨⟨2 * x, 2 * y, width, height⟩, duration, flags⟩

end FrameHeader

end WebP
