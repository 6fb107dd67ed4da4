import WebP.Outcome

/-!
# Results that are the same up to a relation

Two runs may be compared step by step: as long as both go the same way they either fail with the
same error, or both go on with states that are related. Steps that are the same on both sides, and
steps that only write to the log, need no more than that.

## Main definitions

* `WebP.SameUpTo`: the results are the same error, or both are there and related.

## Main results

* `WebP.SameUpTo.bind`: one step after another.
* `WebP.SameUpTo.foldlM`: one step for each of a list of items.
-/

namespace WebP

open Outcome

/-- The results are the same error, or both are there and related. -/
inductive SameUpTo {ε α β : Type} (Related : α → β → Prop) : Except ε α → Except ε β → Prop
  | error (e : ε) : SameUpTo Related (.error e) (.error e)
  | ok {a : α} {b : β} (h : Related a b) : SameUpTo Related (.ok a) (.ok b)

theorem Outcome.result_ensure_congr {p q : Prop} [Decidable p] [Decidable q] (h : p ↔ q)
    (cause : Cause) (notes : List Note) :
    (ensure p cause notes).result = (ensure q cause notes).result := by
  rw [result_ensure, result_ensure]
  exact ite_congr (propext h) (fun _ => rfl) fun _ => rfl

namespace SameUpTo

variable {ε α α' β β' : Type} {R : α → α' → Prop} {S : β → β' → Prop}

theorem of_eq {R : α → α → Prop} (hrefl : ∀ a, R a a) {x y : Except ε α} (h : x = y) :
    SameUpTo R x y := by
  subst h
  cases x with
  | error e => exact .error e
  | ok a => exact .ok (hrefl a)

/-- Related steps one after another. -/
theorem bind {x : Outcome ε α} {y : Outcome ε α'} {f : α → Outcome ε β} {g : α' → Outcome ε β'}
    (h : SameUpTo R x.result y.result)
    (hnext : ∀ a a', R a a' → SameUpTo S (f a).result (g a').result) :
    SameUpTo S (x >>= f).result (y >>= g).result := by
  rw [result_bind, result_bind]
  generalize x.result = first at h
  generalize y.result = second at h
  cases h with
  | error e => exact .error e
  | ok h => exact hnext _ _ h

/-- A step with the same result on both sides. -/
theorem bind_of_eq {x y : Outcome ε α} {f : α → Outcome ε β} {g : α → Outcome ε β'}
    (h : x.result = y.result) (hnext : ∀ a, SameUpTo S (f a).result (g a).result) :
    SameUpTo S (x >>= f).result (y >>= g).result := by
  refine bind (of_eq (fun a => Eq.refl a) h) ?_
  rintro a _ rfl
  exact hnext a

theorem bind_self {x : Outcome ε α} {f : α → Outcome ε β} {g : α → Outcome ε β'}
    (hnext : ∀ a, SameUpTo S (f a).result (g a).result) :
    SameUpTo S (x >>= f).result (x >>= g).result :=
  bind_of_eq rfl hnext

theorem noting {x : Parsed α} {y : Parsed α'} (h : SameUpTo R x.result y.result) (note : Note) :
    SameUpTo R (x.noting note).result (y.noting note).result := by
  rw [result_noting, result_noting]
  generalize x.result = first at h
  generalize y.result = second at h
  cases h with
  | error fault => exact .error _
  | ok h => exact .ok h

/-- Related steps for each of a list of items. -/
theorem foldlM {ι : Type} {step : α → ι → Outcome ε α} {step' : α' → ι → Outcome ε α'}
    (hstep : ∀ a a' item, R a a' → SameUpTo R (step a item).result (step' a' item).result)
    (items : List ι) {a : α} {a' : α'} (h : R a a') :
    SameUpTo R (items.foldlM step a).result (items.foldlM step' a').result := by
  induction items generalizing a a' with
  | nil => exact .ok h
  | cons item items ih =>
    rw [List.foldlM_cons, List.foldlM_cons]
    exact bind (hstep a a' item h) fun _ _ => ih

end SameUpTo

end WebP
