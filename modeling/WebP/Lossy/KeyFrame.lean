import WebP.Cursor.Read

/-!
# The header of a lossy key frame

A lossy bitstream begins with ten bytes: a frame tag of 24 bits, a start code, and the width and
the height, each with a scale in its two highest bits. An image is a single visible key frame.
-/

namespace WebP

open Cursor

/-- The header of a lossy key frame. -/
structure KeyFrameHeader where
  profile : Nat
  /-- The length of the first partition in bytes. -/
  partitionLength : Nat
  size : Size
  horizontalScale : Nat
  verticalScale : Nat
deriving DecidableEq, Repr, Inhabited

namespace KeyFrameHeader

def encodedLength : Nat := 10

/-- The bytes behind the frame tag. -/
def startCode : Bytes := [0x9d, 0x01, 0x2a]

/-- The highest profile that is defined. -/
def maxProfile : Nat := 3

/-- Reads the header of a key frame. The first partition must end before the payload does. -/
def read : Read KeyFrameHeader := do
  let available ← .remaining
  .ensure (encodedLength ≤ available) .truncatedChunk [.readingChunk .vp8]
  let tag ← .nat 3
  let profile := tag / 2 % 8
  let partitionLength := tag / 32
  .ensure (tag % 2 = 0) .invalidBitstream [.notKeyFrame, .readingChunk .vp8]
  .ensure (profile ≤ maxProfile) .invalidParam [.unknownProfile, .readingChunk .vp8]
  .ensure (tag / 16 % 2 = 1) .invalidParam [.invisibleFrame, .readingChunk .vp8]
  let code ← .bytes 3
  .ensure (code = startCode) .invalidBitstream [.invalidStartCode code, .readingChunk .vp8]
  let packedWidth ← .nat 2
  let packedHeight ← .nat 2
  let left ← .remaining
  .ensure (partitionLength < left) .invalidParam
    [.partitionTooLong partitionLength left, .readingChunk .vp8]
  let size : Size := ⟨packedWidth % 0x4000, packedHeight % 0x4000⟩
  .ensure (size.width ≠ 0) .invalidParam [.readingField .vp8 "width"]
  .ensure (size.height ≠ 0) .invalidParam [.readingField .vp8 "height"]
  return {
    profile
    partitionLength
    size
    horizontalScale := packedWidth / 0x4000
    verticalScale := packedHeight / 0x4000 }

end KeyFrameHeader

end WebP
