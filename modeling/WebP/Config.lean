/-!
# Settings for reading a file
-/

namespace WebP

/-- How a file is read. Settings change what is reported, never what is accepted. -/
structure Config where
  /-- Frames shown for less than this many milliseconds are given the default duration. -/
  minFrameDelay : Nat := 20
  /-- The default duration of a frame in milliseconds. -/
  defaultFrameDelay : Nat := 100
  /-- Whether the detail of lossy images is read. -/
  inspectLossyDetail : Bool := true
  /-- Larger images than this many pixels are mentioned in the log. -/
  maxImageArea : Nat := 0x100000000
deriving DecidableEq, Repr, Inhabited

end WebP
