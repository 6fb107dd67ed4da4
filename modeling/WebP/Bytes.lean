/-!
# Byte strings

A file is a list of bytes. Integers in it are little-endian, and a part of it is named by the
half-open span of its offsets.

## Main definitions

* `WebP.Bytes`: byte strings, with `Bytes.natLE`, the number that a byte string writes.
* `WebP.Span`: a half-open range of offsets, with `Bytes.slice`, the bytes in it.
-/

namespace WebP

/-- A byte string. -/
abbrev Bytes := List UInt8

/-- The half-open range of offsets from `start` up to, and without, `stop`. -/
structure Span where
  start : Nat
  stop : Nat
deriving DecidableEq, Repr, Inhabited

namespace Bytes

/-- The number whose little-endian base 256 digits are the given bytes. -/
def natLE : Bytes → Nat
  | [] => 0
  | b :: bs => b.toNat + 256 * natLE bs

/-- The bytes at the offsets in `span` that the byte string has. -/
def slice (data : Bytes) (span : Span) : Bytes :=
  (data.drop span.start).take (span.stop - span.start)

@[simp] theorem natLE_nil : natLE [] = 0 := rfl

@[simp] theorem natLE_cons (b : UInt8) (bs : Bytes) :
    natLE (b :: bs) = b.toNat + 256 * natLE bs := rfl

theorem length_slice (data : Bytes) (span : Span) :
    (data.slice span).length = min (span.stop - span.start) (data.length - span.start) := by
  simp [slice]

/-- A slice that ends inside the first part of a byte string does not see what follows. -/
theorem slice_append {data : Bytes} {span : Span} (h : span.stop ≤ data.length) (more : Bytes) :
    (data ++ more).slice span = data.slice span := by
  by_cases hs : span.start ≤ data.length
  · rw [slice, slice, List.drop_append_of_le_length hs, List.take_append_of_le_length]
    simpa using Nat.sub_le_sub_right h span.start
  · have : span.stop - span.start = 0 := by omega
    simp [slice, this]

end Bytes

end WebP
