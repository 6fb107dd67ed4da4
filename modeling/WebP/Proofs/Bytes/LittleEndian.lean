import Mathlib.Algebra.Group.Nat.Defs
import WebP.Bytes

/-!
# Writing little-endian integers

The inverse of `WebP.Bytes.natLE`: the bytes of a number, the lowest first.

## Main definitions

* `WebP.Bytes.ofNatLE`: a number written in a given number of bytes.

## Main results

* `WebP.Bytes.natLE_ofNatLE`, `WebP.Bytes.ofNatLE_natLE`: writing and reading are inverse to each
  other on the numbers that fit.
-/

namespace WebP.Bytes

/-- A number of `n` bytes is less than `256 ^ n`. -/
theorem natLE_lt (bs : Bytes) : natLE bs < 256 ^ bs.length := by
  induction bs with
  | nil => simp
  | cons b bs ih =>
    have hb : b.toNat < 256 := b.toNat_lt
    rw [natLE_cons, List.length_cons, Nat.pow_succ]
    omega

/-- The `width` lowest bytes of a number, the lowest one first. -/
def ofNatLE : (width : Nat) → Nat → Bytes
  | 0, _ => []
  | width + 1, n => .ofNat n :: ofNatLE width (n / 256)

@[simp] theorem length_ofNatLE (width n : Nat) : (ofNatLE width n).length = width := by
  induction width generalizing n with
  | zero => rfl
  | succ width ih => rw [ofNatLE, List.length_cons, ih]

theorem length_flatMap_ofNatLE (width : Nat) (numbers : List Nat) :
    (numbers.flatMap (ofNatLE width)).length = width * numbers.length := by
  induction numbers with
  | nil => rfl
  | cons n numbers ih =>
    rw [List.flatMap_cons, List.length_append, length_ofNatLE, ih, List.length_cons,
      Nat.mul_succ, Nat.add_comm]

/-- A number that fits is read back. -/
theorem natLE_ofNatLE {width n : Nat} (h : n < 256 ^ width) : natLE (ofNatLE width n) = n := by
  induction width generalizing n with
  | zero =>
    rw [Nat.pow_zero] at h
    simp only [ofNatLE, natLE_nil]
    omega
  | succ width ih =>
    have hn : n / 256 < 256 ^ width := by
      rw [Nat.pow_succ] at h
      omega
    rw [ofNatLE, natLE_cons, ih hn, UInt8.toNat_ofNat']
    omega

/-- Bytes are the number they form, written in as many bytes. -/
theorem ofNatLE_natLE (bs : Bytes) : ofNatLE bs.length (natLE bs) = bs := by
  induction bs with
  | nil => rfl
  | cons b bs ih =>
    have hb : b.toNat < 256 := b.toNat_lt
    have hhead : UInt8.ofNat (b.toNat + 256 * natLE bs) = b := by
      rw [← UInt8.toNat_inj, UInt8.toNat_ofNat']
      omega
    have htail : (b.toNat + 256 * natLE bs) / 256 = natLE bs := by omega
    rw [List.length_cons, natLE_cons, ofNatLE, hhead, htail, ih]

end WebP.Bytes
