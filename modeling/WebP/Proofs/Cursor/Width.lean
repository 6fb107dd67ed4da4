import WebP.Proofs.BitStream.TakesAll
import WebP.Proofs.Cursor.Effect

/-!
# Reads of a fixed width

The fields of a structure of a fixed size have fixed widths. A read of such a field takes the next
bytes, whatever they are, and is cut off if there are too few of them. The width of reads in
sequence is the sum of their widths.

## Main definitions

* `WebP.Cursor.Read.HasWidth`: a read of a fixed width.

## Main results

* `WebP.Cursor.Read.HasWidth.bind`: the width of reads in sequence.
-/

namespace WebP.Cursor.Read

variable {α β : Type} {read : Read α} {next : α → Read β} {m n : Nat}

/-- The read takes the next `width` bytes, whatever they are, and is cut off if there are fewer. -/
structure HasWidth (read : Read α) (width : Nat) : Prop where
  takes : ∀ {cursor : Cursor}, width ≤ cursor.remaining → ∃ a,
    read.effect cursor = (.ok a, { cursor with position := cursor.position + width })
  cutOff : ∀ {cursor : Cursor}, cursor.remaining < width → IsCutOff (read.run cursor).1.result

theorem hasWidth_pure (a : α) : HasWidth (pure a) 0 where
  takes _ := ⟨a, rfl⟩
  cutOff h := absurd h (Nat.not_lt_zero _)

theorem hasWidth_lift {outcome : Parsed α} {a : α} (h : outcome.result = .ok a) :
    HasWidth (lift outcome) 0 where
  takes _ := ⟨a, Prod.ext h rfl⟩
  cutOff h := absurd h (Nat.not_lt_zero _)

theorem hasWidth_bytes (count : Nat) : HasWidth (bytes count) count where
  takes h := ⟨_, congrArg (fun done => (done.1.result, done.2)) (run_bytes_of_le h)⟩
  cutOff h := by
    rw [run_bytes_of_lt h]
    exact failsWith_error_iff.mpr rfl

/-- **Reads in sequence.** The second read has what the first one leaves. -/
theorem HasWidth.bind (h₁ : HasWidth read m) (h₂ : ∀ a, HasWidth (next a) n) :
    HasWidth (read >>= next) (m + n) where
  takes {cursor} hle := by
    obtain ⟨a, ha⟩ := h₁.takes (Nat.le_trans (Nat.le_add_right m n) hle)
    have hsecond := Nat.le_sub_of_add_le' hle
    rw [← remaining_advanced] at hsecond
    obtain ⟨b, hb⟩ := (h₂ a).takes hsecond
    refine ⟨b, ?_⟩
    rw [effect_bind_of_ok ha, hb, Nat.add_assoc]
  cutOff {cursor} hlt := by
    by_cases hfirst : m ≤ cursor.remaining
    · obtain ⟨a, ha⟩ := h₁.takes hfirst
      obtain ⟨hresult, hafter⟩ := Prod.mk.inj ha
      refine (failsWith_run_bind_of_ok hresult hafter).mpr ((h₂ a).cutOff ?_)
      rw [remaining_advanced]
      omega
    · exact failsWith_run_bind_iff.mpr (.inl (h₁.cutOff (Nat.not_le.mp hfirst)))

theorem HasWidth.noting (h : HasWidth read n) (note : Note) : HasWidth (noting note read) n where
  takes hle := by
    obtain ⟨a, ha⟩ := h.takes hle
    obtain ⟨hresult, hafter⟩ := Prod.mk.inj ha
    refine ⟨a, Prod.ext ?_ hafter⟩
    exact Outcome.result_noting_eq_ok.mpr hresult
  cutOff hlt := by
    change FailsWith _ (Outcome.noting note (read.run _).1).result
    rw [Outcome.result_noting]
    exact failsWith_mapError_iff.mpr (h.cutOff hlt)

/-- A field that is named in the note on its failure. -/
theorem HasWidth.field (h : HasWidth read n) (chunk : FourCC) (name : String) :
    HasWidth (field chunk name read) n :=
  h.noting _

theorem hasWidth_nat (width : Nat) : HasWidth (nat width) width :=
  (hasWidth_bytes width).bind fun _ => hasWidth_pure _

theorem hasWidth_oneBased : HasWidth oneBased 3 :=
  (hasWidth_nat 3).bind fun _ => hasWidth_pure _

theorem hasWidth_canvasFlags : HasWidth canvasFlags 4 :=
  (hasWidth_nat 4).bind fun _ =>
    (hasWidth_lift (Outcome.result_emitIf _ _)).bind fun _ => hasWidth_pure _

theorem hasWidth_frameFlags : HasWidth frameFlags 1 :=
  (hasWidth_nat 1).bind fun _ =>
    (hasWidth_lift (Outcome.result_emitIf _ _)).bind fun _ => hasWidth_pure _

end WebP.Cursor.Read
