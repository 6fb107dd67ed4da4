import WebP.Cursor.Read
import WebP.Lossless.Chain

/-!
# The header of a lossless image

A lossless bitstream begins with a signature byte. The fields behind it are bit fields: the
size, each dimension less one, whether alpha is used, a version that must be zero, and the chain
of transforms.
-/

namespace WebP

open Cursor

/-- The header of a lossless image. -/
structure LosslessHeader where
  size : Size
  alphaIsUsed : Bool
  transforms : List Transform
deriving DecidableEq, Repr, Inhabited

namespace LosslessHeader

/-- The least number of bytes: the signature and the fields of a fixed width. -/
def encodedLength : Nat := 5

/-- The first byte of a lossless bitstream. -/
def signature : Nat := 0x2f

/-- Reads the size, the use of alpha and the version. -/
def readFields : BitStream.Read (Size × Bool × Nat) := do
  let width ← BitStream.field 14
  let height ← BitStream.field 14
  let alphaIsUsed ← BitStream.flag
  let version ← BitStream.field 3
  return (⟨width + 1, height + 1⟩, alphaIsUsed, version)

/-- Reads the header of a lossless image and moves past the bytes that its bits touch. -/
def read : Read LosslessHeader := do
  let available ← .remaining
  .ensure (encodedLength ≤ available) .truncatedChunk [.readingChunk .vp8l]
  let first ← .nat 1
  .ensure (first = signature) .invalidParam [.invalidSignature first, .readingChunk .vp8l]
  let stream ← .bits .leastSignificantFirst
  let ((size, alphaIsUsed, version), stream) ← .lift (.ofExcept (readFields stream))
  .ensure (version = 0) (.unsupportedVersion version) []
  let (transforms, stream) ← .lift ((Chain.ofStream stream).outcome.noting (.readingChunk .vp8l))
  let _ ← .bytes stream.bytesConsumed
  return { size, alphaIsUsed, transforms }

end LosslessHeader

end WebP
