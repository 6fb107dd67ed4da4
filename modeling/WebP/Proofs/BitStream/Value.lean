import Mathlib.Algebra.Group.Nat.Defs
import WebP.BitStream

/-!
# The values of fields

A field of `n` bits holds a number below `2 ^ n`, whichever bit comes first. Each number below
`2 ^ n` is the value of its digits, and each `n` bits are the digits of their value, so that bits
can be written as numbers and bytes as bits.

## Main definitions

* `WebP.BitOrder.digits`: the binary digits of a number.
* `WebP.BitOrder.pack`: the bytes that hold bits.

## Main results

* `WebP.BitOrder.value_lt`: the value of some bits is bounded by their number.
* `WebP.BitOrder.value_digits`, `WebP.BitOrder.digits_value`: digits and values undo each other.
* `WebP.BitOrder.flatMap_bits_pack`: the bits of packed bytes are those that were packed.
-/

namespace WebP.BitOrder

variable {width n count : Nat} {bs : List Bool}

theorem binary_lt (bs : List Bool) : binary bs < 2 ^ bs.length := by
  induction bs with
  | nil => simp [binary]
  | cons b bs ih =>
    have hb : b.toNat ≤ 1 := by cases b <;> simp
    rw [binary, List.length_cons, Nat.pow_succ]
    omega

/-- A number of `n` bits is less than `2 ^ n`. -/
theorem value_lt (order : BitOrder) (bs : List Bool) : order.value bs < 2 ^ bs.length := by
  cases order
  · simpa [value] using binary_lt bs.reverse
  · exact binary_lt bs

/-! ### Digits -/

/-- The `width` lowest binary digits of a number, in the order in which they are read. -/
def digits (order : BitOrder) (width n : Nat) : List Bool :=
  let digits := (List.range width).map n.testBit
  match order with
  | mostSignificantFirst => digits.reverse
  | leastSignificantFirst => digits

@[simp] theorem length_digits (order : BitOrder) (width n : Nat) :
    (order.digits width n).length = width := by
  cases order <;> simp [digits]

theorem digits_one (order : BitOrder) (bit : Bool) : order.digits 1 bit.toNat = [bit] := by
  cases order <;> cases bit <;> rfl

theorem bits_eq_digits (order : BitOrder) (byte : UInt8) :
    order.bits byte = order.digits 8 byte.toNat := by
  cases order <;> rfl

theorem map_testBit_succ (width n : Nat) :
    (List.range (width + 1)).map n.testBit =
      n.testBit 0 :: (List.range width).map (n / 2).testBit := by
  have hshift : n.testBit ∘ Nat.succ = (n / 2).testBit := by
    funext i
    exact Nat.testBit_succ n i
  rw [List.range_succ_eq_map, List.map_cons, List.map_map, hshift]

theorem binary_map_testBit (width n : Nat) :
    binary ((List.range width).map n.testBit) = n % 2 ^ width := by
  induction width generalizing n with
  | zero => rw [Nat.pow_zero, Nat.mod_one]; rfl
  | succ width ih =>
    rw [map_testBit_succ, binary, ih, Nat.testBit_zero, Nat.pow_succ', Nat.mod_mul]
    have hbit : (decide (n % 2 = 1)).toNat = n % 2 := by
      rcases Nat.mod_two_eq_zero_or_one n with h | h <;> rw [h] <;> rfl
    rw [hbit]

theorem map_testBit_binary (bs : List Bool) :
    (List.range bs.length).map (binary bs).testBit = bs := by
  induction bs with
  | nil => rfl
  | cons b bs ih =>
    have hb : b.toNat < 2 := by cases b <;> decide
    have hhalf : binary (b :: bs) / 2 = binary bs := by
      rw [binary]
      omega
    have hlow : (binary (b :: bs)).testBit 0 = b := by
      rw [binary, Nat.testBit_zero, Nat.add_mul_mod_self_left]
      cases b <;> rfl
    rw [List.length_cons, map_testBit_succ, hhalf, hlow, ih]

/-- A number is the value of its digits. -/
theorem value_digits (order : BitOrder) (h : n < 2 ^ width) :
    order.value (order.digits width n) = n := by
  cases order with
  | mostSignificantFirst =>
    rw [digits, value, List.reverse_reverse, binary_map_testBit, Nat.mod_eq_of_lt h]
  | leastSignificantFirst => rw [digits, value, binary_map_testBit, Nat.mod_eq_of_lt h]

/-- Bits are the digits of their value. -/
theorem digits_value (order : BitOrder) (bs : List Bool) :
    order.digits bs.length (order.value bs) = bs := by
  cases order with
  | mostSignificantFirst =>
    rw [digits, value, ← List.length_reverse, map_testBit_binary, List.reverse_reverse]
  | leastSignificantFirst => rw [digits, value, map_testBit_binary]

/-- All bits are the digits of a number. -/
theorem exists_digits_eq (order : BitOrder) (h : bs.length = width) :
    ∃ n < 2 ^ width, order.digits width n = bs := by
  subst h
  exact ⟨order.value bs, order.value_lt bs, order.digits_value bs⟩

/-! ### Bytes -/

/-- The first `count` bytes that hold the bits. -/
def pack (order : BitOrder) : (count : Nat) → List Bool → Bytes
  | 0, _ => []
  | count + 1, bs => .ofNat (order.value (bs.take 8)) :: pack order count (bs.drop 8)

@[simp] theorem length_pack (order : BitOrder) (count : Nat) (bs : List Bool) :
    (order.pack count bs).length = count := by
  induction count generalizing bs with
  | zero => rfl
  | succ count ih => rw [pack, List.length_cons, ih]

/-- A byte that is made of eight bits has these bits. -/
theorem bits_ofNat_value (order : BitOrder) (h : bs.length = 8) :
    order.bits (.ofNat (order.value bs)) = bs := by
  have hlt := order.value_lt bs
  rw [h] at hlt
  rw [bits_eq_digits, UInt8.toNat_ofNat_of_lt' hlt]
  have hdigits := order.digits_value bs
  rwa [h] at hdigits

/-- Bits that fill whole bytes are read from them. -/
theorem flatMap_bits_pack (order : BitOrder) (h : bs.length = 8 * count) :
    (order.pack count bs).flatMap order.bits = bs := by
  induction count generalizing bs with
  | zero => exact (List.eq_nil_of_length_eq_zero h).symm
  | succ count ih =>
    have htake : (bs.take 8).length = 8 := by
      rw [List.length_take]
      omega
    have hdrop : (bs.drop 8).length = 8 * count := by
      rw [List.length_drop]
      omega
    rw [pack, List.flatMap_cons, bits_ofNat_value order htake, ih hdrop, List.take_append_drop]

/-- The bits of the first bytes are the first bits. -/
theorem flatMap_bits_take (order : BitOrder) (bytes : Bytes) (count : Nat) :
    (bytes.take count).flatMap order.bits = (bytes.flatMap order.bits).take (8 * count) := by
  induction count generalizing bytes with
  | zero => rfl
  | succ count ih =>
    cases bytes with
    | nil => rfl
    | cons byte bytes =>
      have hlength := order.length_bits byte
      have hle : (order.bits byte).length ≤ 8 * (count + 1) := by omega
      have hleft : 8 * (count + 1) - (order.bits byte).length = 8 * count := by omega
      rw [List.take_succ_cons, List.flatMap_cons, List.flatMap_cons, ih, List.take_append,
        List.take_of_length_le hle, hleft]

/-- Bytes are packed from their bits. -/
theorem pack_flatMap_bits (order : BitOrder) (bytes : Bytes) :
    order.pack bytes.length (bytes.flatMap order.bits) = bytes := by
  induction bytes with
  | nil => rfl
  | cons byte bytes ih =>
    have hlength := order.length_bits byte
    have hbyte : UInt8.ofNat (order.value (order.bits byte)) = byte := by
      rw [bits_eq_digits, order.value_digits byte.toNat_lt, UInt8.ofNat_toNat]
    rw [List.length_cons, List.flatMap_cons, pack, List.take_left' hlength,
      List.drop_left' hlength, hbyte, ih]

end WebP.BitOrder
