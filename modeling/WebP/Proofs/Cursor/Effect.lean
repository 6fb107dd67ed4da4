import WebP.Proofs.Cursor.Takes

/-!
# What a read does

A read yields a value or a fault and leaves the cursor somewhere. Without the log, these two are
its effect. The effect of a sequence is told step by step, from the bytes in front of the cursor.

## Main definitions

* `WebP.Cursor.Read.effect`: the result of a read and the cursor behind it.

## Main results

* `WebP.Cursor.Read.effect_bind_of_ok`, `WebP.Cursor.Read.effect_bind_of_error`: reads in sequence.
* `WebP.Cursor.Read.effect_ensure_bind_eq_ok_iff`: a condition in a sequence.
-/

namespace WebP.Cursor.Read

variable {α β : Type} {read : Read α} {next : α → Read β} {cursor after : Cursor} {a : α} {b : β}
  {fault : Fault}

/-- The result of a read and the cursor behind it, without the log. -/
def effect (read : Read α) (cursor : Cursor) : Except Fault α × Cursor :=
  ((read.run cursor).1.result, (read.run cursor).2)

@[simp] theorem effect_pure (a : α) (cursor : Cursor) :
    (pure a : Read α).effect cursor = (.ok a, cursor) := rfl

/-- Behind a read that succeeds, a sequence goes on at the cursor that it leaves. -/
theorem effect_bind_of_ok (h : read.effect cursor = (.ok a, after)) :
    (read >>= next).effect cursor = (next a).effect after := by
  obtain ⟨hresult, hafter⟩ := Prod.mk.inj h
  rw [effect, run_bind, hresult, hafter]
  rfl

/-- A sequence ends with the first read that fails. -/
theorem effect_bind_of_error (h : read.effect cursor = (.error fault, after)) :
    (read >>= next).effect cursor = (.error fault, after) := by
  obtain ⟨hresult, hafter⟩ := Prod.mk.inj h
  rw [effect, run_bind, hresult, hafter]

theorem effect_remaining_bind (next : Nat → Read β) (cursor : Cursor) :
    (remaining >>= next).effect cursor = (next cursor.remaining).effect cursor := rfl

theorem effect_bits_bind (order : BitOrder) (next : BitStream → Read β) (cursor : Cursor) :
    (bits order >>= next).effect cursor = (next (cursor.bits order)).effect cursor := rfl

/-- What is known without reading is handed on. -/
theorem effect_lift_bind_of_ok {outcome : Parsed α} (h : outcome.result = .ok a) :
    (lift outcome >>= next).effect cursor = (next a).effect cursor :=
  effect_bind_of_ok (Prod.ext h rfl)

theorem effect_lift_bind_of_error {outcome : Parsed α} (h : outcome.result = .error fault) :
    (lift outcome >>= next).effect cursor = (.error fault, cursor) :=
  effect_bind_of_error (Prod.ext h rfl)

/-- A condition lets the rest of a sequence run, or is the fault. -/
theorem effect_ensure_bind {p : Prop} [Decidable p] {cause : Cause} {notes : List Note}
    {next : Unit → Read β} :
    (ensure p cause notes >>= next).effect cursor =
      if p then (next ()).effect cursor else (.error ⟨cause, notes⟩, cursor) := by
  by_cases h : p
  · have hpass : ensure p cause notes = pure () := if_pos h
    rw [hpass, if_pos h]
    exact effect_bind_of_ok rfl
  · have hstop : ensure p cause notes = fail cause notes := if_neg h
    rw [hstop, if_neg h]
    exact effect_bind_of_error rfl

/-- A sequence with a condition succeeds exactly if the condition holds and the rest succeeds. -/
theorem effect_ensure_bind_eq_ok_iff {p : Prop} [Decidable p] {cause : Cause} {notes : List Note}
    {next : Unit → Read β} :
    (ensure p cause notes >>= next).effect cursor = (.ok b, after) ↔
      p ∧ (next ()).effect cursor = (.ok b, after) := by
  rw [effect_ensure_bind]
  by_cases h : p
  · rw [if_pos h, and_iff_right h]
  · rw [if_neg h]
    exact iff_of_false nofun fun hp => h hp.1

/-- A read of the bytes in front of the cursor leaves the cursor behind them. -/
theorem Takes.effect {bytes tail : Bytes} (h : Takes read bytes a)
    (hrest : cursor.rest = bytes ++ tail) :
    read.effect cursor = (.ok a, { cursor with position := cursor.position + bytes.length }) :=
  Prod.ext (h cursor tail hrest).1 (h cursor tail hrest).2

variable {width : Nat} {front back : Bytes}

theorem rest_moved (hrest : cursor.rest = front ++ back) (hwidth : front.length = width) :
    ({ cursor with position := cursor.position + width } : Cursor).rest = back := by
  subst hwidth
  exact rest_advanced hrest

theorem effect_bytes_bind_of_le (h : width ≤ cursor.remaining) (next : Bytes → Read β) :
    (bytes width >>= next).effect cursor =
      (next (cursor.rest.take width)).effect { cursor with position := cursor.position + width } :=
  effect_bind_of_ok (congrArg (fun done => (done.1.result, done.2)) (run_bytes_of_le h))

theorem effect_bytes_bind (hrest : cursor.rest = front ++ back) (hwidth : front.length = width)
    (next : Bytes → Read β) :
    (bytes width >>= next).effect cursor =
      (next front).effect { cursor with position := cursor.position + width } := by
  subst hwidth
  exact effect_bind_of_ok ((takes_bytes front).effect hrest)

theorem effect_nat_bind (hrest : cursor.rest = front ++ back) (hwidth : front.length = width)
    (next : Nat → Read β) :
    (nat width >>= next).effect cursor =
      (next front.natLE).effect { cursor with position := cursor.position + width } := by
  subst hwidth
  exact effect_bind_of_ok ((takes_nat rfl).effect hrest)

end WebP.Cursor.Read
