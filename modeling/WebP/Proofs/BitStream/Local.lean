import Mathlib.Tactic.SplitIfs
import WebP.Proofs.BitStream.Takes

/-!
# Reads that look only at what they take

A read that succeeds has moved past some bits. It is local if these bits alone decide what it
yields, so that the bits behind them could have been any others. Such reads compose, and a sequence
of them that succeeded can be taken apart into what each of them took.

## Main definitions

* `WebP.BitStream.IsLocal`: a read is decided by the bits that it takes.

## Main results

* `WebP.BitStream.IsLocal.exists_of_bind`: what the first read of a sequence took.
* `WebP.BitStream.isLocal_field`, `WebP.BitStream.IsLocal.bind`: fields are local, and so are reads
  in sequence.
-/

namespace WebP.BitStream

variable {α β : Type} {order : BitOrder} {read : Read α} {next : α → Read β} {a : α} {b : β}
  {byteLength position : Nat} {bits : List Bool} {after : BitStream}

/-- Whenever the read succeeds, it takes the first of the bits, and any others may follow these. -/
def IsLocal (read : Read α) : Prop :=
  ∀ ⦃order : BitOrder⦄ ⦃byteLength position : Nat⦄ ⦃bits : List Bool⦄ ⦃a : α⦄ ⦃after : BitStream⦄,
    read ⟨order, byteLength, position, bits⟩ = .ok (a, after) →
      ∃ taken tail, bits = taken ++ tail ∧ Takes order read taken a

/-- A sequence that succeeded is a read that took some bits, and the rest of the sequence. -/
theorem IsLocal.exists_of_bind (hread : IsLocal read)
    (h : (read >>= next) ⟨order, byteLength, position, bits⟩ = .ok (b, after)) :
    ∃ a taken tail, bits = taken ++ tail ∧ Takes order read taken a ∧
      next a ⟨order, byteLength, position + taken.length, tail⟩ = .ok (b, after) := by
  cases hfirst : read ⟨order, byteLength, position, bits⟩ with
  | error fault =>
    rw [run_bind_of_error hfirst] at h
    cases h
  | ok found =>
    obtain ⟨a, stream⟩ := found
    obtain ⟨taken, tail, rfl, htaken⟩ := hread hfirst
    rw [htaken.run_bind] at h
    exact ⟨a, taken, tail, rfl, htaken, h⟩

/-- A sequence that succeeded, of what is known without reading and a read. -/
theorem exists_of_liftM_bind {x : Except Fault α} {stream : BitStream}
    (h : ((liftM x : Read α) >>= next) stream = .ok (b, after)) :
    ∃ a, x = .ok a ∧ next a stream = .ok (b, after) := by
  cases x with
  | error fault => cases h
  | ok a => exact ⟨a, rfl, h⟩

/-- A condition in a sequence that succeeded holds. -/
theorem of_ensure_bind {p : Prop} [Decidable p] {cause : Cause} {notes : List Note}
    {next : Unit → Read β} {stream : BitStream}
    (h : (ensure p cause notes >>= next) stream = .ok (b, after)) :
    p ∧ next () stream = .ok (b, after) := by
  by_cases hp : p
  · rw [run_ensure_bind hp] at h
    exact ⟨hp, h⟩
  · rw [ensure, if_neg hp] at h
    cases h

theorem isLocal_pure (a : α) : IsLocal (pure a) := by
  intro order byteLength position bits found after h
  obtain ⟨rfl, -⟩ := Prod.mk.inj (Except.ok.inj h)
  exact ⟨[], bits, rfl, takes_pure a⟩

/-- **Reads in sequence.** They are local if each of them is. -/
theorem IsLocal.bind (hread : IsLocal read) (hnext : ∀ a, IsLocal (next a)) :
    IsLocal (read >>= next) := by
  intro order byteLength position bits b after h
  obtain ⟨a, front, rest, rfl, hfront, h⟩ := hread.exists_of_bind h
  obtain ⟨back, tail, rfl, hback⟩ := hnext a h
  exact ⟨front ++ back, tail, (List.append_assoc front back tail).symm, hfront.bind hback⟩

theorem isLocal_ite {p : Prop} [Decidable p] {other : Read α} (h₁ : IsLocal read)
    (h₂ : IsLocal other) : IsLocal (if p then read else other) := by
  split
  · exact h₁
  · exact h₂

/-! ### Fields -/

theorem isLocal_field (width : Nat) : IsLocal (field width) := by
  intro order byteLength position bits value after h
  rw [field] at h
  split_ifs at h with hwide hshort
  have hlength : (bits.take width).length = width :=
    Nat.le_antisymm (List.length_take_le width bits) (Nat.not_lt.mp hshort)
  have hlt := order.value_lt (bits.take width)
  have hdigits := order.digits_value (bits.take width)
  rw [hlength] at hlt hdigits
  obtain ⟨rfl, -⟩ := Prod.mk.inj (Except.ok.inj h)
  refine ⟨bits.take width, bits.drop width, (List.take_append_drop width bits).symm, ?_⟩
  have htaken : Takes order (field width) _ _ := takes_field (Nat.not_lt.mp hwide) hlt
  rwa [hdigits] at htaken

theorem lt_of_takes_field {width n : Nat} (h : Takes order (field width) bits n) :
    n < 2 ^ width := by
  have hread := h 0 0 []
  rw [field] at hread
  split_ifs at hread
  obtain ⟨rfl, -⟩ := Prod.mk.inj (Except.ok.inj hread)
  refine Nat.lt_of_lt_of_le (order.value_lt _) (Nat.pow_le_pow_right (by decide) ?_)
  exact List.length_take_le width _

theorem isLocal_flag : IsLocal flag := (isLocal_field 1).bind fun _ => isLocal_pure _

theorem isLocal_signed (width : Nat) : IsLocal (signed width) :=
  (isLocal_field width).bind fun _ => isLocal_flag.bind fun _ =>
    isLocal_ite (isLocal_pure _) (isLocal_pure _)

theorem isLocal_optional (h : IsLocal read) : IsLocal (optional read) :=
  isLocal_flag.bind fun _ => isLocal_ite (h.bind fun _ => isLocal_pure _) (isLocal_pure _)

theorem isLocal_repeated (h : IsLocal read) (count : Nat) : IsLocal (repeated read count) := by
  induction count with
  | zero => exact isLocal_pure []
  | succ count ih => exact h.bind fun _ => ih.bind fun _ => isLocal_pure _

/-- Numbers with a sign, each of which may be left out. -/
theorem isLocal_optionals (width count : Nat) :
    IsLocal (repeated (optional (signed width)) count) :=
  isLocal_repeated (isLocal_optional (isLocal_signed width)) count

end WebP.BitStream
