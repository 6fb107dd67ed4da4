import WebP.Proofs.BitStream.Value
import WebP.Proofs.Bytes.LittleEndian

/-!
# Numbers joined into one

Numbers that stand one after another in a bit stream are as good as one wide number: they are
shifted apart and put together. The number that comes first is the higher part if the most
significant bit comes first, and the lower part otherwise. In this way any list of numbers is
written as a single number, and the bytes of this number are what a reader of the list is given.

## Main definitions

* `WebP.BitOrder.join`: two numbers as one.
* `WebP.BitOrder.write`: the bytes of a list of numbers of given widths.

## Main results

* `WebP.BitOrder.value_append`: the value of bits in two parts.
* `WebP.BitOrder.flatMap_bits_write`: the bits of a written list are the digits of its numbers.
-/

namespace WebP.BitOrder

variable {order : BitOrder} {a b x y : Nat} {numbers : List (Nat × Nat)}

/-- The number of `a + b` bits of which `x` is what stands in the first `a` bits, and `y` what
stands in the other `b`. -/
def join (order : BitOrder) (a b x y : Nat) : Nat :=
  match order with
  | mostSignificantFirst => x <<< b ||| y
  | leastSignificantFirst => x ||| y <<< a

theorem binary_append (bs cs : List Bool) :
    binary (bs ++ cs) = binary bs + 2 ^ bs.length * binary cs := by
  induction bs with
  | nil => rw [List.nil_append, binary, List.length_nil, Nat.pow_zero, Nat.one_mul, Nat.zero_add]
  | cons bit bs ih =>
    rw [List.cons_append, binary, ih, binary, List.length_cons, Nat.pow_succ', Nat.mul_add,
      Nat.mul_assoc, Nat.add_assoc]

theorem binary_append_eq_or (bs cs : List Bool) :
    binary (bs ++ cs) = binary cs <<< bs.length ||| binary bs := by
  rw [binary_append, ← Nat.shiftLeft_add_eq_or_of_lt (binary_lt bs), Nat.shiftLeft_eq,
    Nat.mul_comm (binary cs), Nat.add_comm]

/-- **The value of bits in two parts.** It is joined of the values of the parts. -/
theorem value_append (order : BitOrder) (bs cs : List Bool) :
    order.value (bs ++ cs) =
      order.join bs.length cs.length (order.value bs) (order.value cs) := by
  cases order with
  | mostSignificantFirst =>
    simp only [value, join]
    rw [List.reverse_append, binary_append_eq_or, List.length_reverse]
  | leastSignificantFirst =>
    simp only [value, join]
    rw [binary_append_eq_or, Nat.or_comm]

/-- A joined number has the digits of both numbers. -/
theorem digits_join (order : BitOrder) (hx : x < 2 ^ a) (hy : y < 2 ^ b) :
    order.digits (a + b) (order.join a b x y) = order.digits a x ++ order.digits b y := by
  have hvalue := order.value_append (order.digits a x) (order.digits b y)
  rw [value_digits order hx, value_digits order hy, length_digits, length_digits] at hvalue
  have hdigits := order.digits_value (order.digits a x ++ order.digits b y)
  rwa [List.length_append, length_digits, length_digits, hvalue] at hdigits

theorem join_lt (order : BitOrder) (hx : x < 2 ^ a) (hy : y < 2 ^ b) :
    order.join a b x y < 2 ^ (a + b) := by
  have hlt := order.value_lt (order.digits a x ++ order.digits b y)
  rwa [value_append, value_digits order hx, value_digits order hy, List.length_append,
    length_digits, length_digits] at hlt

/-! ### Numbers in bytes -/

/-- The bytes of a number of `8 * count` bits. -/
def bytes (order : BitOrder) (count n : Nat) : Bytes :=
  match order with
  | mostSignificantFirst => (Bytes.ofNatLE count n).reverse
  | leastSignificantFirst => Bytes.ofNatLE count n

/-- The lowest digits of a number come first, and those of what is left follow. -/
theorem digits_leastSignificantFirst_add (a b n : Nat) :
    leastSignificantFirst.digits (a + b) n =
      leastSignificantFirst.digits a n ++ leastSignificantFirst.digits b (n / 2 ^ a) := by
  have hshift : n.testBit ∘ (a + ·) = (n / 2 ^ a).testBit := by
    funext i
    rw [Function.comp_apply, Nat.testBit_div_two_pow, Nat.add_comm]
  simp only [digits]
  rw [List.range_add, List.map_append, List.map_map, hshift]

theorem bits_ofNat (order : BitOrder) (n : Nat) : order.bits (.ofNat n) = order.digits 8 n := by
  have hlow : (List.range 8).map (n % 2 ^ 8).testBit = (List.range 8).map n.testBit := by
    refine List.map_congr_left fun i hi => ?_
    rw [Nat.testBit_mod_two_pow, decide_eq_true (List.mem_range.mp hi), Bool.true_and]
  rw [bits_eq_digits, UInt8.toNat_ofNat']
  simp only [digits, hlow]

theorem flatMap_bits_ofNatLE (count n : Nat) :
    (Bytes.ofNatLE count n).flatMap leastSignificantFirst.bits =
      leastSignificantFirst.digits (8 * count) n := by
  induction count generalizing n with
  | zero => rfl
  | succ count ih =>
    rw [Bytes.ofNatLE, List.flatMap_cons, bits_ofNat, ih, Nat.mul_succ, Nat.add_comm,
      digits_leastSignificantFirst_add]
    rfl

/-- The bits of the bytes of a number are its digits. -/
theorem flatMap_bits_bytes (order : BitOrder) (count n : Nat) :
    (order.bytes count n).flatMap order.bits = order.digits (8 * count) n := by
  cases order with
  | leastSignificantFirst => exact flatMap_bits_ofNatLE count n
  | mostSignificantFirst =>
    -- both the bytes and the bits in them are the other way round
    have hbits : mostSignificantFirst.bits = List.reverse ∘ leastSignificantFirst.bits := rfl
    have hdigits : mostSignificantFirst.digits (8 * count) n =
        (leastSignificantFirst.digits (8 * count) n).reverse := rfl
    rw [hdigits, ← flatMap_bits_ofNatLE, List.reverse_flatMap, hbits]
    rfl

/-! ### Lists of numbers -/

/-- The number of bits of numbers of given widths. -/
def totalWidth : List (Nat × Nat) → Nat
  | [] => 0
  | number :: numbers => number.1 + totalWidth numbers

/-- The single number that numbers of given widths form. -/
def joined (order : BitOrder) : List (Nat × Nat) → Nat
  | [] => 0
  | (width, n) :: numbers => order.join width (totalWidth numbers) n (order.joined numbers)

/-- The bytes of numbers of given widths, filled up with zeros behind them. -/
def write (order : BitOrder) (numbers : List (Nat × Nat)) : Bytes :=
  let count := (totalWidth numbers + 7) / 8
  let free := 8 * count - totalWidth numbers
  order.bytes count (order.join (totalWidth numbers) free (order.joined numbers) 0)

/-- Each number has no more bits than its width. -/
def FitWidths (numbers : List (Nat × Nat)) : Prop :=
  ∀ number ∈ numbers, number.2 < 2 ^ number.1

theorem joined_lt (order : BitOrder) (h : FitWidths numbers) :
    order.joined numbers < 2 ^ totalWidth numbers := by
  induction numbers with
  | nil => exact Nat.one_pos
  | cons number numbers ih =>
    obtain ⟨hnumber, hnumbers⟩ := List.forall_mem_cons.mp h
    exact order.join_lt hnumber (ih hnumbers)

theorem digits_joined (order : BitOrder) (h : FitWidths numbers) :
    order.digits (totalWidth numbers) (order.joined numbers) =
      numbers.flatMap fun number => order.digits number.1 number.2 := by
  induction numbers with
  | nil => cases order <;> rfl
  | cons number numbers ih =>
    obtain ⟨hnumber, hnumbers⟩ := List.forall_mem_cons.mp h
    rw [List.flatMap_cons, ← ih hnumbers]
    exact order.digits_join hnumber (order.joined_lt hnumbers)

/-- **The bits of a written list.** They are the digits of its numbers and, behind these, the
zeros that fill up the last byte. -/
theorem flatMap_bits_write (order : BitOrder) (h : FitWidths numbers) :
    ∃ free, (order.write numbers).flatMap order.bits =
      (numbers.flatMap fun number => order.digits number.1 number.2) ++ order.digits free 0 := by
  refine ⟨8 * ((totalWidth numbers + 7) / 8) - totalWidth numbers, ?_⟩
  have hle : totalWidth numbers ≤ 8 * ((totalWidth numbers + 7) / 8) := by omega
  have hjoin := order.digits_join (b := 8 * ((totalWidth numbers + 7) / 8) - totalWidth numbers)
    (order.joined_lt h) (Nat.two_pow_pos _)
  rw [Nat.add_sub_of_le hle, order.digits_joined h] at hjoin
  rw [write, flatMap_bits_bytes, hjoin]

example : leastSignificantFirst.write [(14, 1023), (3, 5), (1, 1)] = [0xff, 0x43, 0x03] := by
  decide

end WebP.BitOrder
