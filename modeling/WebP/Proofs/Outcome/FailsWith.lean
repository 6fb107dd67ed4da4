import WebP.Cursor.Read

/-!
# Faults with a property

Which fault a sequence of steps ends with is told step by step: either a step fails, or the steps
up to one succeed and that one fails. For a property of faults that no note changes, only the place
where a fault arises matters.

## Main definitions

* `WebP.FailsWith`: the result is a fault with a given property.
* `WebP.RunsOut`: the result is a fault that says that bytes are missing.
* `WebP.Cursor.Read.NeedsAtMost`: a read that does not run out of enough bytes.

## Main results

* `WebP.failsWith_bind_iff`, `WebP.failsWith_foldlM_iff`: sequences of steps.
* `WebP.Cursor.Read.NeedsAtMost.bind`: the bytes that reads in sequence need.
-/

namespace WebP

open Outcome

/-- The result is a fault with the property. -/
def FailsWith {α : Type} (Q : Fault → Prop) (x : Except Fault α) : Prop :=
  ∃ fault, x = .error fault ∧ Q fault

/-- The result is a fault that says that bytes are missing. -/
abbrev RunsOut {α : Type} (x : Except Fault α) : Prop :=
  FailsWith (fun fault => fault.status.isRecoverable) x

section FailsWith

variable {α β σ ι : Type} {Q : Fault → Prop}

@[simp] theorem failsWith_ok_iff {a : α} : FailsWith Q (.ok a : Except Fault α) ↔ False := by
  simp only [FailsWith, reduceCtorEq, false_and, exists_false]

@[simp] theorem failsWith_error_iff {fault : Fault} :
    FailsWith Q (.error fault : Except Fault α) ↔ Q fault := by
  simp only [FailsWith, Except.error.injEq, exists_eq_left']

theorem FailsWith.imp {Q' : Fault → Prop} {x : Except Fault α} (h : FailsWith Q x)
    (himp : ∀ fault, Q fault → Q' fault) : FailsWith Q' x := by
  obtain ⟨fault, hfault, hq⟩ := h
  exact ⟨fault, hfault, himp fault hq⟩

/-- A sequence fails where one of its steps does. -/
theorem failsWith_bind_iff {x : Except Fault α} {f : α → Except Fault β} :
    FailsWith Q (x >>= f) ↔ FailsWith Q x ∨ ∃ a, x = .ok a ∧ FailsWith Q (f a) := by
  cases x with
  | error fault =>
    change FailsWith Q (.error fault) ↔ _
    simp only [failsWith_error_iff, reduceCtorEq, false_and, exists_false, or_false]
  | ok a =>
    change FailsWith Q (f a) ↔ _
    simp only [failsWith_ok_iff, false_or, Except.ok.injEq, exists_eq_left']

theorem failsWith_mapError_iff {x : Except Fault α} {g : Fault → Fault} :
    FailsWith Q (x.mapError g) ↔ FailsWith (fun fault => Q (g fault)) x := by
  cases x with
  | error fault =>
    change FailsWith Q (.error (g fault)) ↔ _
    rw [failsWith_error_iff, failsWith_error_iff]
  | ok a => exact failsWith_ok_iff.trans failsWith_ok_iff.symm

theorem failsWith_map_iff {x : Except Fault α} {g : α → β} :
    FailsWith Q (x.map g) ↔ FailsWith Q x := by
  cases x with
  | error fault => exact failsWith_error_iff.trans failsWith_error_iff.symm
  | ok a => exact failsWith_ok_iff.trans failsWith_ok_iff.symm

theorem failsWith_ensure_iff {p : Prop} [Decidable p] {cause : Cause} {notes : List Note} :
    FailsWith Q (ensure p cause notes).result ↔ ¬ p ∧ Q ⟨cause, notes⟩ := by
  rw [result_ensure]
  split
  · simp only [failsWith_ok_iff, *, not_true_eq_false, false_and]
  · simp only [failsWith_error_iff, *, not_false_eq_true, true_and]

/-- A note does not change whether bytes are missing. -/
theorem runsOut_noting_iff {note : Note} {x : Parsed α} :
    RunsOut (x.noting note).result ↔ RunsOut x.result := by
  rw [result_noting]
  exact failsWith_mapError_iff

/-- A condition whose fault is another one than missing bytes lets the rest of a sequence decide. -/
theorem runsOut_ensure_bind_iff {p : Prop} [Decidable p] {cause : Cause} {notes : List Note}
    {next : Unit → Parsed β} (hcause : ¬ cause.status.isRecoverable) :
    RunsOut (ensure p cause notes >>= next).result ↔ p ∧ RunsOut (next ()).result := by
  rw [result_bind, result_ensure]
  by_cases hp : p
  · rw [if_pos hp]
    exact (and_iff_right hp).symm
  · rw [if_neg hp]
    exact iff_of_false (fun h => hcause (failsWith_error_iff.mp h)) fun h => hp h.1

theorem not_runsOut_ensure {p : Prop} [Decidable p] {cause : Cause} {notes : List Note}
    (hcause : ¬ cause.status.isRecoverable) : ¬ RunsOut (ensure p cause notes).result :=
  fun h => hcause (failsWith_ensure_iff.mp h).2

/-- What comes behind a step does not matter if it cannot run out itself. -/
theorem runsOut_bind_iff_of_not {x : Parsed α} {next : α → Parsed β}
    (hnext : ∀ a, ¬ RunsOut (next a).result) : RunsOut (x >>= next).result ↔ RunsOut x.result := by
  rw [result_bind]
  exact failsWith_bind_iff.trans (or_iff_left fun ⟨a, _, h⟩ => hnext a h)

/-- Behind a step that succeeds, the rest of a sequence decides. -/
theorem runsOut_bind_iff_of_ok {x : Parsed α} {next : α → Parsed β} {a : α}
    (h : x.result = .ok a) : RunsOut (x >>= next).result ↔ RunsOut (next a).result := by
  rw [result_bind, h]
  rfl

/-- Steps for each of a list of items fail at the first item for which the step fails. -/
theorem failsWith_foldlM_iff {step : σ → ι → Parsed σ} {items : List ι} {start : σ} :
    FailsWith Q (items.foldlM step start).result ↔ ∃ front item back state,
      items = front ++ item :: back ∧ (front.foldlM step start).result = .ok state ∧
        FailsWith Q (step state item).result := by
  induction items generalizing start with
  | nil =>
    refine iff_of_false (fun h => failsWith_ok_iff.mp h) ?_
    rintro ⟨front, item, back, -, hitems, -⟩
    exact List.append_ne_nil_of_right_ne_nil front (List.cons_ne_nil item back) hitems.symm
  | cons first items ih =>
    rw [List.foldlM_cons, result_bind, failsWith_bind_iff]
    constructor
    · rintro (hfirst | ⟨state, hstate, hrest⟩)
      · exact ⟨[], first, items, start, rfl, rfl, hfirst⟩
      · obtain ⟨front, item, back, last, rfl, hlast, hitem⟩ := ih.mp hrest
        refine ⟨first :: front, item, back, last, rfl, ?_, hitem⟩
        rw [List.foldlM_cons, result_bind_eq_ok]
        exact ⟨state, hstate, hlast⟩
    · rintro ⟨front, item, back, last, hitems, hlast, hitem⟩
      cases front with
      | nil =>
        obtain ⟨rfl, rfl⟩ := List.cons.inj hitems
        obtain rfl := Except.ok.inj hlast
        exact .inl hitem
      | cons head front =>
        obtain ⟨rfl, rfl⟩ := List.cons.inj hitems
        rw [List.foldlM_cons, result_bind_eq_ok] at hlast
        obtain ⟨state, hstate, hlast⟩ := hlast
        exact .inr ⟨state, hstate, ih.mpr ⟨front, item, back, last, rfl, hlast, hitem⟩⟩

end FailsWith

/-! ### Reads -/

namespace Cursor.Read

variable {α β : Type} {read : Read α} {next : α → Read β} {m n : Nat}

theorem bind_assoc {γ : Type} (read : Read α) (f : α → Read β) (g : β → Read γ) :
    (read >>= f) >>= g = read >>= fun a => f a >>= g := by
  funext cursor
  change run ((read >>= f) >>= g) cursor = run (read >>= fun a => f a >>= g) cursor
  rw [run_bind, run_bind, run_bind]
  cases (read.run cursor).1.result with
  | error fault => rfl
  | ok a =>
    dsimp only
    rw [run_bind]
    cases ((f a).run (read.run cursor).2).1.result with
    | error fault => rfl
    | ok b => simp only [List.append_assoc]

/-- Reads in sequence fail where one of them does. -/
theorem failsWith_run_bind_iff {Q : Fault → Prop} {cursor : Cursor} :
    FailsWith Q ((read >>= next).run cursor).1.result ↔
      FailsWith Q (read.run cursor).1.result ∨ ∃ a, (read.run cursor).1.result = .ok a ∧
        FailsWith Q ((next a).run (read.run cursor).2).1.result := by
  rw [run_bind]
  cases (read.run cursor).1.result with
  | error fault => simp only [failsWith_error_iff, reduceCtorEq, false_and, exists_false, or_false]
  | ok a => simp only [failsWith_ok_iff, false_or, Except.ok.injEq, exists_eq_left']

/-- Behind a read that succeeds, the rest of a sequence decides. -/
theorem failsWith_run_bind_of_ok {Q : Fault → Prop} {cursor cursor' : Cursor} {a : α}
    (h : (read.run cursor).1.result = .ok a) (hcursor : (read.run cursor).2 = cursor') :
    FailsWith Q ((read >>= next).run cursor).1.result ↔
      FailsWith Q ((next a).run cursor').1.result := by
  rw [failsWith_run_bind_iff, h, hcursor]
  simp only [failsWith_ok_iff, false_or, Except.ok.injEq, exists_eq_left']

/-- A condition is the fault, or the rest of a sequence runs. -/
theorem failsWith_run_ensure_bind_iff {Q : Fault → Prop} {p : Prop} [Decidable p] {cause : Cause}
    {notes : List Note} {next : Unit → Read β} {cursor : Cursor} :
    FailsWith Q ((ensure p cause notes >>= next).run cursor).1.result ↔
      ¬ p ∧ Q ⟨cause, notes⟩ ∨ p ∧ FailsWith Q ((next ()).run cursor).1.result := by
  by_cases hp : p
  · have hpass : ensure p cause notes = pure () := if_pos hp
    rw [hpass]
    simp only [hp, not_true_eq_false, false_and, true_and, false_or]
    rfl
  · have hstop : ensure p cause notes = fail cause notes := if_neg hp
    rw [hstop, failsWith_run_bind_iff]
    change FailsWith Q (.error _) ∨ (∃ a, Except.error _ = .ok a ∧ _) ↔ _
    simp only [failsWith_error_iff, reduceCtorEq, false_and, exists_false, hp, not_false_eq_true,
      true_and, or_false]

/-- With `n` bytes ahead the read does not run out, and it moves past no more than these. -/
def NeedsAtMost (read : Read α) (n : Nat) : Prop :=
  ∀ (cursor : Cursor) (left : Nat), n + left ≤ cursor.remaining →
    ¬ RunsOut (read.run cursor).1.result ∧ left ≤ (read.run cursor).2.remaining

theorem NeedsAtMost.not_runsOut (h : NeedsAtMost read n) {cursor : Cursor}
    (hn : n ≤ cursor.remaining) : ¬ RunsOut (read.run cursor).1.result :=
  (h cursor 0 hn).1

theorem needsAtMost_pure (a : α) : NeedsAtMost (pure a) 0 :=
  fun _ _ h => ⟨failsWith_ok_iff.mp, by rwa [Nat.zero_add] at h⟩

theorem needsAtMost_remaining : NeedsAtMost remaining 0 :=
  fun _ _ h => ⟨failsWith_ok_iff.mp, by rwa [Nat.zero_add] at h⟩

/-- Reads in sequence need what each of them needs. -/
theorem NeedsAtMost.bind (h₁ : NeedsAtMost read m) (h₂ : ∀ a, NeedsAtMost (next a) n) :
    NeedsAtMost (read >>= next) (m + n) := by
  intro cursor left hle
  rw [Nat.add_assoc] at hle
  obtain ⟨hfirst, hleft⟩ := h₁ cursor (n + left) hle
  rw [run_bind]
  cases hresult : (read.run cursor).1.result with
  | error fault =>
    rw [hresult] at hfirst
    exact ⟨fun h => hfirst (failsWith_error_iff.mpr (failsWith_error_iff.mp h)), by
      dsimp only
      omega⟩
  | ok a => exact h₂ a _ left hleft

theorem needsAtMost_bytes (count : Nat) : NeedsAtMost (bytes count) count := by
  intro cursor left hle
  rw [run_bytes_of_le (by omega)]
  refine ⟨failsWith_ok_iff.mp, ?_⟩
  change left ≤ cursor.data.length - (cursor.position + count)
  rw [Cursor.remaining] at hle
  omega

theorem needsAtMost_nat (width : Nat) : NeedsAtMost (nat width) width :=
  (needsAtMost_bytes width).bind fun _ => needsAtMost_pure _

/-- A condition whose fault is another one than missing bytes. -/
theorem NeedsAtMost.ensure_bind {p : Prop} [Decidable p] {cause : Cause} {notes : List Note}
    {next : Unit → Read β} (hcause : ¬ cause.status.isRecoverable) (h : NeedsAtMost (next ()) n) :
    NeedsAtMost (ensure p cause notes >>= next) n := by
  intro cursor left hle
  by_cases hp : p
  · have hpass : ensure p cause notes = pure () := if_pos hp
    rw [hpass]
    exact h cursor left hle
  · have hstop : ensure p cause notes = fail cause notes := if_neg hp
    rw [hstop]
    refine ⟨fun hout => hcause (failsWith_error_iff.mp hout), ?_⟩
    change left ≤ cursor.remaining
    omega

end Cursor.Read

end WebP
