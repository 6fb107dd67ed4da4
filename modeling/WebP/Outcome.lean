import WebP.Event

/-!
# Outcomes

A step of reading or of playback has a result, or an error, and leaves a log. The log is kept
apart from the result, so that a fact about results needs no word about logs: every operation
below acts on `Outcome.result` as if there were no log.

## Main definitions

* `WebP.Outcome`: a result or an error, with the events on the way.
* `WebP.Parsed`: the outcome of reading a part of a file.

## Main results

* `WebP.Outcome.result_bind`: the result of a sequence is the sequence of the results.
-/

namespace WebP

/-- A result or an error, with the log of what led to it. -/
structure Outcome (ε α : Type) where
  result : Except ε α
  log : List Event := []

/-- The outcome of reading a part of a file. -/
abbrev Parsed (α : Type) := Outcome Fault α

namespace Outcome

variable {ε α β : Type}

theorem ext {x y : Outcome ε α} (hr : x.result = y.result) (hl : x.log = y.log) : x = y := by
  cases x
  cases y
  cases hr
  cases hl
  rfl

/-- A result without a log. -/
def ofExcept (result : Except ε α) : Outcome ε α := ⟨result, []⟩

/-- An error without a log. -/
def error (e : ε) : Outcome ε α := ⟨.error e, []⟩

/-- An error of a part of a file, without a log. -/
def fail (cause : Cause) (notes : List Note) : Parsed α := error ⟨cause, notes⟩

/-- Refuses what does not meet a condition. -/
def ensure (condition : Prop) [Decidable condition] (cause : Cause) (notes : List Note) :
    Parsed Unit :=
  if condition then ⟨.ok (), []⟩ else fail cause notes

/-- A log of one event. -/
def emit (event : Event) : Outcome ε Unit := ⟨.ok (), [event]⟩

/-- A log of one event, if the condition holds. -/
def emitIf (condition : Prop) [Decidable condition] (event : Event) : Outcome ε Unit :=
  if condition then emit event else ⟨.ok (), []⟩

/-- Whatever failed gets a note. -/
def noting (note : Note) (x : Parsed α) : Parsed α :=
  { x with result := x.result.mapError (·.noting note) }

/-- The second step runs on the result of the first, and its log follows. -/
def andThen (x : Outcome ε α) (f : α → Outcome ε β) : Outcome ε β :=
  match x.result with
  | .ok a =>
    let y := f a
    ⟨y.result, x.log ++ y.log⟩
  | .error e => ⟨.error e, x.log⟩

instance : Monad (Outcome ε) where
  pure a := ⟨.ok a, []⟩
  bind := andThen

@[simp] theorem result_pure (a : α) : (pure a : Outcome ε α).result = .ok a := rfl

@[simp] theorem log_pure (a : α) : (pure a : Outcome ε α).log = [] := rfl

@[simp] theorem result_ofExcept (r : Except ε α) : (ofExcept r).result = r := rfl

@[simp] theorem result_emit (event : Event) : (emit event : Outcome ε Unit).result = .ok () :=
  rfl

@[simp] theorem result_error (e : ε) : (error e : Outcome ε α).result = .error e := rfl

@[simp] theorem result_fail (cause : Cause) (notes : List Note) :
    (fail cause notes : Parsed α).result = .error ⟨cause, notes⟩ := rfl

theorem result_ensure (p : Prop) [Decidable p] (cause : Cause) (notes : List Note) :
    (ensure p cause notes).result = if p then .ok () else .error ⟨cause, notes⟩ := by
  unfold ensure
  split <;> rfl

@[simp] theorem result_noting (note : Note) (x : Parsed α) :
    (noting note x).result = x.result.mapError (·.noting note) := rfl

@[simp] theorem result_emitIf (p : Prop) [Decidable p] (event : Event) :
    (emitIf p event : Outcome ε Unit).result = .ok () := by
  unfold emitIf
  split <;> rfl

/-- The result of a sequence is the sequence of the results. -/
@[simp] theorem result_bind (x : Outcome ε α) (f : α → Outcome ε β) :
    (x >>= f).result = x.result >>= fun a => (f a).result := by
  change (x.andThen f).result = _
  unfold andThen
  cases x.result <;> rfl

/-- A sequence succeeds exactly when each of its steps does. -/
theorem result_bind_eq_ok {x : Outcome ε α} {f : α → Outcome ε β} {b : β} :
    (x >>= f).result = .ok b ↔ ∃ a, x.result = .ok a ∧ (f a).result = .ok b := by
  rw [result_bind]
  cases x.result with
  | error e => simp [bind, Except.bind]
  | ok a => simp [bind, Except.bind]

/-- A condition is all that is asked for. -/
theorem result_ensure_eq_ok {p : Prop} [Decidable p] {cause : Cause} {notes : List Note}
    {u : Unit} : (ensure p cause notes).result = .ok u ↔ p := by
  rw [result_ensure]
  split <;> simp_all

/-- A note is made on faults only. -/
theorem result_noting_eq_ok {note : Note} {x : Parsed α} {a : α} :
    (noting note x).result = .ok a ↔ x.result = .ok a := by
  rw [result_noting]
  cases x.result with
  | error fault =>
    constructor
    · rintro ⟨⟩
    · rintro ⟨⟩
  | ok b => exact Iff.rfl

theorem toOption_result_eq_some_iff {x : Outcome ε α} {a : α} :
    x.result.toOption = some a ↔ x.result = .ok a := by
  cases x.result with
  | error e =>
    constructor
    · rintro ⟨⟩
    · rintro ⟨⟩
  | ok b =>
    change some b = some a ↔ _
    rw [Option.some.injEq, Except.ok.injEq]

instance : LawfulMonad (Outcome ε) :=
  LawfulMonad.mk' _
    (fun x => by
      obtain ⟨r, l⟩ := x
      cases r
      · rfl
      · exact Outcome.ext rfl (List.append_nil l))
    (fun _ _ => rfl)
    (fun x f g => by
      obtain ⟨r, l⟩ := x
      cases r with
      | error e => rfl
      | ok a =>
        simp only [bind, andThen]
        cases (f a).result
        · rfl
        · simp)

end Outcome

end WebP
