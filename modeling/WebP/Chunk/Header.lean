import WebP.Chunk.Kind
import WebP.Cursor.Read

/-!
# Chunk headers

A chunk begins with its code and the length of its payload. A payload of odd length is followed
by one byte of padding. The file as a whole is a chunk named `RIFF` whose payload begins with
the code `WEBP`.

## Main definitions

* `WebP.ChunkHeader`: a code and a length, with `ChunkHeader.split?` and `ChunkHeader.read`.
* `WebP.RiffHeader`: the declared length of a file.
-/

namespace WebP

/-- The code of a chunk and the length of its payload. -/
structure ChunkHeader where
  name : FourCC
  length : Nat
deriving DecidableEq, Repr, Inhabited

namespace ChunkHeader

/-- The number of bytes of a chunk header. -/
def encodedLength : Nat := 8

/-- Whether a byte of padding follows the payload. -/
def isPadded (header : ChunkHeader) : Bool := header.length % 2 == 1

/-- The length of the payload and its padding. -/
def paddedLength (header : ChunkHeader) : Nat := header.length + header.length % 2

/-- The header at the start of a byte string, and the bytes behind it. -/
def split? : Bytes → Option (ChunkHeader × Bytes)
  | a :: b :: c :: d :: l₀ :: l₁ :: l₂ :: l₃ :: rest =>
    some (⟨⟨a, b, c, d⟩, Bytes.natLE [l₀, l₁, l₂, l₃]⟩, rest)
  | _ => none

/-- Reads a chunk header. -/
def read : Cursor.Read ChunkHeader := .ofStep fun cursor =>
  match split? cursor.rest with
  | some (header, _) => .ok (header, { cursor with position := cursor.position + encodedLength })
  | none => .error ⟨.truncatedChunk, []⟩

/-- A byte string is split into its first eight bytes and the others. -/
theorem length_of_split? {data rest : Bytes} {header : ChunkHeader}
    (h : split? data = some (header, rest)) : data.length = encodedLength + rest.length := by
  unfold split? at h
  split at h
  · obtain ⟨-, rfl⟩ := h
    simp only [List.length_cons, encodedLength]
    omega
  · cases h

/-- Only a byte string of fewer than eight bytes has no header. -/
theorem split?_eq_none_iff {data : Bytes} : split? data = none ↔ data.length < encodedLength := by
  unfold split? encodedLength
  split
  · simp
  · rename_i h
    simp only [true_iff]
    match data with
    | [] | [_] | [_, _] | [_, _, _] | [_, _, _, _] | [_, _, _, _, _] | [_, _, _, _, _, _]
    | [_, _, _, _, _, _, _] => simp
    | a :: b :: c :: d :: e :: f :: g :: i :: rest => exact absurd rfl (h a b c d e f g i rest)

end ChunkHeader

/-- The header of a file. -/
structure RiffHeader where
  /-- The number of bytes behind the first eight. -/
  length : Nat
deriving DecidableEq, Repr, Inhabited

namespace RiffHeader

/-- The number of bytes of a file header. -/
def encodedLength : Nat := 12

/-- Reads a file header. -/
def read : Cursor.Read RiffHeader := do
  let header ← ChunkHeader.read
  .ensure (header.name = .riff) .invalidInput [.notRiff]
  let form ← .fourCC
  .ensure (form = .webp) .invalidInput [.notWebP]
  return ⟨header.length⟩

end RiffHeader

end WebP
