import WebP.Fault

/-!
# Bit streams

The headers inside a bitstream are made of fields of a few bits. A bit stream holds the bits of a
byte string in the order in which they are read, and the value of a field is the number that the
next bits form: most significant bit first in a lossy bitstream, least significant bit first in a
lossless one.

## Main definitions

* `WebP.BitOrder`, with `BitOrder.bits` and `BitOrder.value`: the bits of a byte and the number
  formed by bits, in an order.
* `WebP.BitStream`: bits still to be read, with the number of those that have been read.
* `WebP.BitStream.Read`: reading fields one after another.

## Main results

* `WebP.BitStream.field_eq_ok`: a field that fits is the number formed by the next bits.
* `WebP.BitStream.field_eq_error`: a field that does not fit is refused.
-/

namespace WebP

/-- The order in which the bits of a byte are read. -/
inductive BitOrder where
  | mostSignificantFirst
  | leastSignificantFirst
deriving DecidableEq, Repr, Inhabited

namespace BitOrder

/-- The number with the given binary digits, the least significant one first. -/
def binary : List Bool → Nat
  | [] => 0
  | b :: bs => b.toNat + 2 * binary bs

/-- The eight bits of a byte in the order in which they are read. -/
def bits (order : BitOrder) (byte : UInt8) : List Bool :=
  let digits := (List.range 8).map byte.toNat.testBit
  match order with
  | mostSignificantFirst => digits.reverse
  | leastSignificantFirst => digits

/-- The number that bits form in the order in which they were read. -/
def value (order : BitOrder) (bits : List Bool) : Nat :=
  match order with
  | mostSignificantFirst => binary bits.reverse
  | leastSignificantFirst => binary bits

@[simp] theorem length_bits (order : BitOrder) (byte : UInt8) : (order.bits byte).length = 8 := by
  cases order <;> simp [bits]

end BitOrder

/-- The bits of a byte string that are still to be read. -/
structure BitStream where
  order : BitOrder
  /-- The length of the byte string, for reports. -/
  byteLength : Nat
  /-- How many bits have been read. -/
  position : Nat
  rest : List Bool
deriving DecidableEq, Repr

namespace BitStream

/-- All bits of a byte string. -/
def ofBytes (order : BitOrder) (bytes : Bytes) : BitStream where
  order := order
  byteLength := bytes.length
  position := 0
  rest := bytes.flatMap order.bits

/-- How many bytes hold the bits that have been read. -/
def bytesConsumed (stream : BitStream) : Nat := (stream.position + 7) / 8

/-- Reading from a bit stream. -/
abbrev Read := StateT BitStream (Except Fault)

/-- The widest field that can be read at once. -/
def maxFieldWidth : Nat := 32

/-- A field of `width` bits. -/
def field (width : Nat) : Read Nat := fun stream =>
  if maxFieldWidth < width then
    .error ⟨.invalidInput, [.tooManyBits]⟩
  else if (stream.rest.take width).length < width then
    .error ⟨.truncatedChunk, [.endOfBits, .bitsOutOfBounds width stream.byteLength]⟩
  else
    .ok (stream.order.value (stream.rest.take width),
      { stream with position := stream.position + width, rest := stream.rest.drop width })

/-- A field of one bit. -/
def flag : Read Bool := do return (← field 1) == 1

/-- An integer in the range of 32 bits with a sign, equal to `n` modulo `2 ^ 32`. -/
def wrap32 (n : Int) : Int := n.bmod 0x100000000

/-- A magnitude of `width` bits and a sign bit after it. -/
def signed (width : Nat) : Read Int := do
  let magnitude := wrap32 (← field width)
  if ← flag then return wrap32 (-magnitude) else return magnitude

/-- A field that is there only if the bit in front of it is set. -/
def optional {α : Type} (read : Read α) : Read (Option α) := do
  if ← flag then return some (← read) else return none

/-- A field a number of times. -/
def repeated {α : Type} (read : Read α) : Nat → Read (List α)
  | 0 => return []
  | n + 1 => do
    let a ← read
    return a :: (← repeated read n)

/-- Whatever fails while `read` runs gets a note. -/
def noting {α : Type} (note : Note) (read : Read α) : Read α := fun stream =>
  (read stream).mapError (·.noting note)

/-- Refuses what does not meet a condition. -/
def ensure (condition : Prop) [Decidable condition] (cause : Cause) (notes : List Note) :
    Read Unit :=
  if condition then pure () else throw ⟨cause, notes⟩

/-- A field that fits is the number formed by the next bits. -/
theorem field_eq_ok {width : Nat} {stream : BitStream} (h₁ : width ≤ maxFieldWidth)
    (h₂ : width ≤ stream.rest.length) :
    field width stream = .ok (stream.order.value (stream.rest.take width),
      { stream with position := stream.position + width, rest := stream.rest.drop width }) := by
  have h : (stream.rest.take width).length = width := by
    rw [List.length_take]
    omega
  rw [field, if_neg (Nat.not_lt.mpr h₁), if_neg (by omega)]

/-- A field that does not fit is refused. -/
theorem field_eq_error {width : Nat} {stream : BitStream} (h₁ : width ≤ maxFieldWidth)
    (h₂ : stream.rest.length < width) :
    field width stream =
      .error ⟨.truncatedChunk, [.endOfBits, .bitsOutOfBounds width stream.byteLength]⟩ := by
  have h : (stream.rest.take width).length < width := by
    rw [List.length_take]
    omega
  rw [field, if_neg (Nat.not_lt.mpr h₁), if_pos h]

end BitStream

end WebP
