import WebP.Outcome

/-!
# Verdicts

A fault says why an input was refused, and its notes say where. Two runs over inputs that differ in
their offsets cannot be expected to make the same notes. They are compared by their verdicts, which
are the results with the cause of a fault only. What one run finds becomes what the other finds by
a map, and a sequence of steps is compared step by step.

## Main definitions

* `WebP.Outcome.verdict`: the value, or the cause of the fault.

## Main results

* `WebP.Outcome.verdict_bind_map`: one step after another, along maps.
* `WebP.Outcome.verdict_foldlM_map`: one step for each of a list of items.
-/

namespace WebP.Outcome

variable {α β : Type}

/-- The value, or the cause of the fault without the notes on it. -/
def verdict (x : Parsed α) : Except Cause α := x.result.mapError Fault.cause

theorem verdict_of_result_eq {x y : Parsed α} (h : x.result = y.result) : x.verdict = y.verdict :=
  congrArg (Except.mapError Fault.cause) h

theorem verdict_eq_ok_iff {x : Parsed α} {a : α} : x.verdict = .ok a ↔ x.result = .ok a := by
  rw [verdict]
  cases x.result with
  | error fault =>
    constructor
    · rintro ⟨⟩
    · rintro ⟨⟩
  | ok found =>
    change (.ok found : Except Cause α) = .ok a ↔ _
    rw [Except.ok.injEq, Except.ok.injEq]

/-- A note on a fault is no part of the verdict. -/
@[simp] theorem verdict_noting (x : Parsed α) (note : Note) :
    (x.noting note).verdict = x.verdict := by
  rw [verdict, result_noting, verdict]
  cases x.result <;> rfl

theorem verdict_bind (x : Parsed α) (f : α → Parsed β) :
    (x >>= f).verdict = x.verdict >>= fun a => (f a).verdict := by
  rw [verdict, result_bind, verdict]
  cases x.result <;> rfl

/-- Steps one after another, of which the first is mapped by `move` and the rest by `move'`. -/
theorem verdict_bind_map {x y : Parsed α} {f g : α → Parsed β} {move : α → α} {move' : β → β}
    (h : y.verdict = x.verdict.map move)
    (hnext : ∀ a, x.result = .ok a → (g (move a)).verdict = (f a).verdict.map move') :
    (y >>= g).verdict = (x >>= f).verdict.map move' := by
  rw [verdict_bind, verdict_bind, h]
  cases hx : x.verdict with
  | error cause => rfl
  | ok a => exact hnext a (verdict_eq_ok_iff.mp hx)

/-- Steps of which the first one has the same verdict on both sides. -/
theorem verdict_bind_of_eq {x y : Parsed α} {f g : α → Parsed β} {move : β → β}
    (h : y.verdict = x.verdict)
    (hnext : ∀ a, x.result = .ok a → (g a).verdict = (f a).verdict.map move) :
    (y >>= g).verdict = (x >>= f).verdict.map move := by
  rw [verdict_bind, verdict_bind, h]
  cases hx : x.verdict with
  | error cause => rfl
  | ok a => exact hnext a (verdict_eq_ok_iff.mp hx)

/-- Steps with the same verdicts on both sides. -/
theorem verdict_bind_congr {x y : Parsed α} {f g : α → Parsed β} (h : y.verdict = x.verdict)
    (hnext : ∀ a, (g a).verdict = (f a).verdict) : (y >>= g).verdict = (x >>= f).verdict := by
  rw [verdict_bind, verdict_bind, h]
  exact congrArg _ (funext hnext)

/-- The same condition is asked for, whatever is noted where it fails. -/
theorem verdict_ensure_congr {p q : Prop} [Decidable p] [Decidable q] (h : q ↔ p) {cause : Cause}
    {notes notes' : List Note} :
    (ensure q cause notes').verdict = (ensure p cause notes).verdict := by
  rw [verdict, verdict, result_ensure, result_ensure]
  by_cases hp : p
  · rw [if_pos hp, if_pos (h.mpr hp)]
  · rw [if_neg hp, if_neg fun hq => hp (h.mp hq)]
    rfl

/-- Behind a condition it is known to hold. -/
theorem verdict_ensure_bind {p q : Prop} [Decidable p] [Decidable q] (h : q ↔ p) {cause : Cause}
    {notes notes' : List Note} {f g : Unit → Parsed β} {move : β → β}
    (hnext : p → (g ()).verdict = (f ()).verdict.map move) :
    (ensure q cause notes' >>= g).verdict = (ensure p cause notes >>= f).verdict.map move :=
  verdict_bind_of_eq (verdict_ensure_congr h) fun _ hp => hnext (result_ensure_eq_ok.mp hp)

/-- A step for each of a list of items, where the steps on one side are those on the other side
with the items and the states mapped. -/
theorem verdict_foldlM_map {ι σ : Type} {step : σ → ι → Parsed σ} {move : σ → σ} {item : ι → ι}
    {items : List ι}
    (hstep : ∀ state, ∀ i ∈ items,
      (step (move state) (item i)).verdict = (step state i).verdict.map move) (state : σ) :
    ((items.map item).foldlM step (move state)).verdict =
      (items.foldlM step state).verdict.map move := by
  induction items generalizing state with
  | nil => rfl
  | cons i items ih =>
    obtain ⟨hfirst, hrest⟩ :
        (∀ state, (step (move state) (item i)).verdict = (step state i).verdict.map move) ∧
        ∀ state, ∀ j ∈ items,
          (step (move state) (item j)).verdict = (step state j).verdict.map move :=
      ⟨fun state => hstep state i (List.mem_cons_self ..),
        fun state j hj => hstep state j (List.mem_cons_of_mem _ hj)⟩
    rw [List.map_cons, List.foldlM_cons, List.foldlM_cons]
    exact verdict_bind_map (hfirst state) fun next _ => ih hrest next

end WebP.Outcome
