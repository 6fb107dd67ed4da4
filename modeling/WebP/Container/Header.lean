import WebP.Image
import WebP.Chunk.Walker
import WebP.Frame.Placement

/-!
# The description of a file

Reading a file gives a description of it: the canvas, what the file contains, how an animation
is repeated, and for each frame its place, its duration and the bytes that hold its image.

## Main definitions

* `WebP.LoopCount`: how often an animation is played.
* `WebP.Features`: what a file contains.
* `WebP.Frame`: one frame.
* `WebP.FileHeader`: the whole description.
-/

namespace WebP

/-- How often an animation is repeated. -/
inductive LoopCount where
  | notSpecified
  | forever
  /-- This many times after the first, at least once. -/
  | count (repetitions : Nat)
deriving DecidableEq, Repr, Inhabited

namespace LoopCount

/-- The loop count of an animation header, in which zero stands for ever. -/
def ofHeader (repetitions : Nat) : LoopCount :=
  if repetitions = 0 then forever else count repetitions

/-- How often the animation is played in all, if it ever ends. -/
def total : LoopCount → Option Nat
  | notSpecified => some 1
  | forever => none
  | count repetitions => some (repetitions + 1)

def text : LoopCount → String
  | notSpecified => "not specified"
  | forever => "forever"
  | count repetitions => toString repetitions

end LoopCount

/-- What a file contains. -/
structure Features where
  animation : Bool := false
  alpha : Bool := false
  exif : Bool := false
  iccp : Bool := false
  xmp : Bool := false
deriving DecidableEq, Repr, Inhabited

/-- The names of the features that are there. -/
def Features.names (features : Features) : List String :=
  [(features.animation, "ANIMATION"), (features.alpha, "ALPHA"), (features.exif, "EXIF"),
    (features.iccp, "ICCP"), (features.xmp, "XMP")].filterMap fun (present, name) =>
      if present then some name else none

/-- A frame of a file. A file without animation has one, which covers its canvas. -/
structure Frame extends Placement where
  /-- How long the frame is shown, in milliseconds. -/
  duration : Nat
  /-- Where the bitstream lies in the file. -/
  payload : Span
  /-- Where the alpha plane lies in the file, if the frame has one. -/
  alphaPayload : Option Span
  image : ImageInfo
  alpha : Option AlphaInfo
deriving DecidableEq, Repr, Inhabited

/-- Whether the bitstream holds alpha or an alpha plane stands beside it. -/
def Frame.hasAlpha (frame : Frame) : Bool := frame.image.hasAlpha || frame.alpha.isSome

/-- The description of a file. -/
structure FileHeader where
  canvas : Size
  features : Features
  loopCount : LoopCount
  /-- The background of an animation, alpha in the highest byte. -/
  background : Option UInt32
  frames : List Frame
  /-- The chunks of the file in order, without those inside a frame. -/
  chunks : List ChunkEntry
  /-- The length of the file, which may be followed by other bytes. -/
  fileLength : Nat
deriving DecidableEq, Repr, Inhabited

namespace FileHeader

def hasAlpha (header : FileHeader) : Bool := header.features.alpha

def isAnimated (header : FileHeader) : Bool := header.features.animation

def frameCount (header : FileHeader) : Nat := header.frames.length

/-- The frame at an index. -/
def frame? (header : FileHeader) (index : Nat) : Option Frame := header.frames[index]?

end FileHeader

end WebP
