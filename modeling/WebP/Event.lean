import WebP.Alpha.Basic
import WebP.Fault
import WebP.Frame.Placement
import WebP.Pixel.Layout

/-!
# Events

Reading a file and playing an animation leave a log: what was found, what looks odd but is
accepted, and what failed. Every event has a level and a wording.
-/

namespace WebP

/-- How much an event matters. -/
inductive Level where
  | warn
  | info
  | debug
deriving DecidableEq, Repr, Inhabited

namespace Level

/-- The more severe a level, the smaller its rank. -/
def rank : Level → Nat
  | .warn => 0
  | .info => 1
  | .debug => 2

def text : Level → String
  | .warn => "WARN"
  | .info => "INFO"
  | .debug => "DEBUG"

/-- Whether events of `level` are shown in a log that goes down to `threshold`. -/
def shownAt (level threshold : Level) : Bool := level.rank ≤ threshold.rank

end Level

/-- Something worth a line in the log. -/
inductive Event where
  -- structures
  | undefinedCanvasFlags (flags : CanvasFlags) (bits : Nat)
  | undefinedFrameFlags (flags : FrameFlags) (bits : Nat)
  | reservedAlphaBits (bits : Nat)
  -- bitstreams
  | transform (step : Transform)
  | lossyImage (size : Size) (profile partition : Nat)
  | lossyDetailOmitted (fault : Fault)
  | losslessImage (size : Size) (alpha : Bool) (transforms : Nat)
  | alphaPlane (header : AlphaHeader)
  -- the file
  | chunk (name : FourCC) (offset length : Nat)
  | unknownChunk (name : FourCC) (offset : Nat)
  | bytesAfterFile (count : Nat)
  | canvas (size : Size) (flags : CanvasFlags)
  | animation (background loopCount : Nat)
  | frame (rect : Rect) (duration : Nat) (flags : FrameFlags)
  | oversized (size : Size) (maxArea : Nat)
  | alphaMissing
  | alphaUnannounced
  | parseFailed (fault : Fault)
  -- playback
  | attached (size : Size) (frames sampleSize : Nat) (layout : ColorLayout)
  | composited (place : Placement)
  | decodeFailed (index : Nat) (words : String)
deriving DecidableEq, Repr

namespace Event

def level : Event → Level
  | undefinedCanvasFlags .. | undefinedFrameFlags .. | reservedAlphaBits .. => .warn
  | lossyDetailOmitted .. | unknownChunk .. | bytesAfterFile .. | oversized .. => .warn
  | alphaMissing | alphaUnannounced | parseFailed .. | decodeFailed .. => .warn
  | chunk .. | canvas .. | animation .. | frame .. | attached .. => .info
  | transform .. | lossyImage .. | losslessImage .. | alphaPlane .. | composited .. => .debug

/-- The wording of an event. -/
def message : Event → String
  | undefinedCanvasFlags flags bits =>
    s!"ignoring undefined bits in {flags.text}: 0x{Numeral.hex bits}"
  | undefinedFrameFlags flags bits =>
    s!"ignoring undefined bits in {flags.text}: 0x{Numeral.hex bits}"
  | reservedAlphaBits bits =>
    s!"ignoring reserved bits in `ALPH` header: 0b{Numeral.padded 2 2 bits}"
  | transform step => step.text
  | lossyImage size profile partition =>
    s!"lossy bitstream: {size.text}, profile {profile}, partition 0 {partition} bytes"
  | lossyDetailOmitted fault => s!"omitting lossy bitstream detail: {fault.summary}"
  | losslessImage size alpha transforms =>
    s!"lossless bitstream: {size.text}, alpha {alpha}, {transforms} leading transforms"
  | alphaPlane header =>
    s!"alpha: {header.compression.text}, filter {header.filter.text}, " ++
      s!"pre-processing {header.preprocessing}"
  | chunk name offset length => s!"{name.text} @ 0x{Numeral.hex32 offset}: {length} bytes"
  | unknownChunk name offset =>
    s!"skipping unknown `{name.text}` chunk @ 0x{Numeral.hex32 offset}"
  | bytesAfterFile count => s!"ignoring {count} bytes after the end of the RIFF chunk"
  | canvas size flags => s!"VP8X: {size.text}, flags {flags.text}"
  | animation background loopCount =>
    s!"ANIM: background 0x{Numeral.hex32 background}, loop count {loopCount}"
  | frame rect duration flags =>
    s!"ANMF: {rect.size.text} @ ({rect.x}, {rect.y}), duration {duration}, " ++
      s!"flags {flags.text}"
  | oversized size maxArea => s!"image area {size.text} exceeds {maxArea}"
  | alphaMissing => "`VP8X` alpha flag is set without any alpha data"
  | alphaUnannounced => "alpha data is present without the `VP8X` alpha flag"
  | parseFailed fault =>
    s!"parse failed with status `{fault.status.text}`: {fault.summary}"
  | attached size frames sampleSize layout =>
    s!"attached {size.text} input with {frames} frames, sample size {sampleSize}, " ++
      layout.text
  | composited place =>
    s!"composited frame {place.index}: {place.rect.text}, dispose {place.dispose.text}, " ++
      s!"blend {place.blend.text}"
  | decodeFailed index words => s!"failed to decode frame {index}: {words}"

/-- The line of the log. -/
def line (event : Event) : String := s!"{event.level.text} {event.message}"

end Event

end WebP
