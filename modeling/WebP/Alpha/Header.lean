import WebP.Alpha.Basic
import WebP.Cursor.Read

/-!
# Reading the header of an alpha plane

The byte holds, from its lowest bits on, the compression, the filter, the pre-processing level
and two reserved bits, which are ignored.
-/

namespace WebP.AlphaHeader

open Cursor

def encodedLength : Nat := 1

/-- Reads the first byte of an alpha plane. -/
def read : Read AlphaHeader := do
  let header ← .field .alph "header" (.nat 1)
  let method := header % 4
  let filter := AlphaFilter.ofCode (header / 4 % 4)
  let level := header / 16 % 4
  let reserved := header / 64
  .ensure (method ≤ 1) .invalidBitstream [.invalidAlphaCompression method, .readingChunk .alph]
  .ensure (level ≤ 1) .invalidBitstream [.invalidAlphaPreprocessing level, .readingChunk .alph]
  .lift (.emitIf (reserved ≠ 0) (.reservedAlphaBits reserved))
  return ⟨if method = 0 then .uncompressed else .lossless, filter, level⟩

end WebP.AlphaHeader
