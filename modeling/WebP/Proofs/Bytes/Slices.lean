import WebP.Proofs.Bytes.LittleEndian

/-!
# Slices of byte strings

Adjacent slices join to a slice, and a byte string is cut into a slice at its start and what
follows.

## Main definitions

* `WebP.Span.Within`: one span lies inside another.
-/

namespace WebP

/-- The first span lies inside the second one. -/
def Span.Within (inner outer : Span) : Prop :=
  outer.start ≤ inner.start ∧ inner.stop ≤ outer.stop

namespace Bytes

variable {data : Bytes}

theorem slice_zero (data : Bytes) (n : Nat) : data.slice ⟨0, n⟩ = data.take n := by
  rw [slice, List.drop_zero, Nat.sub_zero]

theorem length_slice_of_le {start stop : Nat} (h : stop ≤ data.length) :
    (data.slice ⟨start, stop⟩).length = stop - start := by
  rw [length_slice]
  dsimp only
  omega

/-- Adjacent slices join. -/
theorem slice_append_slice (data : Bytes) {a b c : Nat} (hab : a ≤ b) (hbc : b ≤ c) :
    data.slice ⟨a, b⟩ ++ data.slice ⟨b, c⟩ = data.slice ⟨a, c⟩ := by
  have hb : a + (b - a) = b := by omega
  have hc : (b - a) + (c - b) = c - a := by omega
  rw [slice, slice, slice]
  dsimp only
  rw [← hc, List.take_add, List.drop_drop, hb]

/-- The bytes behind the first part of a byte string, up to the end of the second one. -/
theorem slice_of_append (front middle back : Bytes) :
    (front ++ (middle ++ back)).slice ⟨front.length, front.length + middle.length⟩ = middle := by
  rw [slice]
  dsimp only
  rw [List.drop_left, Nat.add_sub_cancel_left, List.take_left]

theorem drop_slice (data : Bytes) (start stop n : Nat) :
    (data.slice ⟨start, stop⟩).drop n = data.slice ⟨start + n, stop⟩ := by
  rw [slice, slice, List.drop_take, List.drop_drop]
  dsimp only
  congr 1
  omega

/-- A slice of what is behind the first bytes is a slice of all. -/
theorem slice_drop (data : Bytes) (n start stop : Nat) :
    slice (data.drop n) ⟨start, stop⟩ = data.slice ⟨n + start, n + stop⟩ := by
  rw [slice, slice, List.drop_drop]
  dsimp only
  rw [Nat.add_sub_add_left]

theorem take_slice (data : Bytes) {start stop n : Nat} (h : start + n ≤ stop) :
    (data.slice ⟨start, stop⟩).take n = data.slice ⟨start, start + n⟩ := by
  rw [slice, slice, List.take_take]
  dsimp only
  congr 1
  omega

/-- A slice of the first bytes of a byte string is the part of the slice that lies in them. -/
theorem slice_take (data : Bytes) (start stop n : Nat) :
    slice (data.take n) ⟨start, stop⟩ = (data.slice ⟨start, stop⟩).take (n - start) := by
  rw [slice, slice, List.drop_take, List.take_take, List.take_take, Nat.min_comm]

/-- A span that begins behind its end is empty wherever it begins. -/
theorem slice_min (data : Bytes) (start stop : Nat) :
    data.slice ⟨min stop start, stop⟩ = data.slice ⟨start, stop⟩ := by
  by_cases h : start ≤ stop
  · rw [Nat.min_eq_right h]
  · have hempty : stop - start = 0 := by omega
    rw [Nat.min_eq_left (by omega), slice, slice]
    dsimp only
    rw [Nat.sub_self, hempty, List.take_zero, List.take_zero]

/-! ### Numbers in slices -/

theorem natLE_slice_lt {start stop width : Nat} (hstop : start + width = stop) :
    (data.slice ⟨start, stop⟩).natLE < 256 ^ width := by
  refine Nat.lt_of_lt_of_le (natLE_lt _) (Nat.pow_le_pow_right (by decide) ?_)
  rw [length_slice]
  dsimp only
  omega

/-- A slice is the number that it forms, written in as many bytes. -/
theorem ofNatLE_slice {start stop width : Nat} (hstop : start + width = stop)
    (hlong : stop ≤ data.length) :
    ofNatLE width (data.slice ⟨start, stop⟩).natLE = data.slice ⟨start, stop⟩ := by
  have hlength : (data.slice ⟨start, stop⟩).length = width := by
    rw [length_slice_of_le hlong]
    omega
  have hwritten := ofNatLE_natLE (data.slice ⟨start, stop⟩)
  rwa [hlength] at hwritten

end Bytes

end WebP
