import WebP.Proofs.BitStream.Takes
import WebP.Proofs.Outcome.FailsWith

/-!
# Reads that need all of their bits

A read of some bits may be given fewer of them. If it needs them all, then it yields its value in
front of all of them, whatever follows, and finds each shorter stretch of them cut off. Such reads
compose, and what they read is a code of which no word is the beginning of another.

## Main definitions

* `WebP.IsProperPrefix`: the first elements of a list, but not all of them.
* `WebP.IsCutOff`: the result is a fault that says that a structure is cut off.
* `WebP.BitStream.TakesAll`: a read takes given bits and needs all of them.

## Main results

* `WebP.BitStream.TakesAll.bind`: what two reads in sequence need.
-/

namespace WebP

/-- The list is the beginning of another one. -/
def IsProperPrefix {α : Type} (front whole : List α) : Prop := front <+: whole ∧ front ≠ whole

namespace IsProperPrefix

variable {α : Type} {front back rest whole : List α}

theorem length_lt (h : IsProperPrefix front whole) : front.length < whole.length :=
  Nat.lt_of_le_of_ne h.1.length_le fun heq => h.2 (h.1.eq_of_length heq)

theorem append_right (h : front <+: whole) (hback : back ≠ []) :
    IsProperPrefix front (whole ++ back) := by
  refine ⟨h.trans (List.prefix_append whole back), fun heq => hback ?_⟩
  have hle := h.length_le
  rw [heq, List.length_append] at hle
  exact List.eq_nil_of_length_eq_zero (by omega)

theorem trans_prefix (h : IsProperPrefix front whole) (hwhole : whole <+: rest) :
    IsProperPrefix front rest := by
  refine ⟨h.1.trans hwhole, fun heq => ?_⟩
  have hlt := Nat.lt_of_lt_of_le h.length_lt hwhole.length_le
  rw [heq] at hlt
  exact Nat.lt_irrefl _ hlt

theorem append_left (h : IsProperPrefix back whole) (front : List α) :
    IsProperPrefix (front ++ back) (front ++ whole) :=
  ⟨(List.prefix_append_right_inj front).mpr h.1, fun heq => h.2 (List.append_cancel_left heq)⟩

/-- A list that ends inside two others in sequence ends inside the first or inside the second. -/
theorem cases_append (h : IsProperPrefix rest (front ++ back)) :
    IsProperPrefix rest front ∨ ∃ behind, rest = front ++ behind ∧ IsProperPrefix behind back := by
  obtain ⟨hbegins, hne⟩ := h
  rcases List.prefix_or_prefix_of_prefix hbegins (List.prefix_append front back) with hin | hover
  · by_cases heq : rest = front
    · subst heq
      refine .inr ⟨[], (List.append_nil rest).symm, List.nil_prefix, fun hnil => hne ?_⟩
      rw [← hnil, List.append_nil]
    · exact .inl ⟨hin, heq⟩
  · obtain ⟨behind, rfl⟩ := hover
    exact .inr ⟨behind, rfl, (List.prefix_append_right_inj front).mp hbegins,
      fun heq => hne (congrArg (front ++ ·) heq)⟩

end IsProperPrefix

/-- The result is a fault that says that a structure is cut off. -/
abbrev IsCutOff {α : Type} (x : Except Fault α) : Prop :=
  FailsWith (fun fault => fault.cause = .truncatedChunk) x

namespace BitStream

variable {α β : Type} {order : BitOrder} {width n : Nat} {read : Read α} {next : α → Read β}
  {front back : List Bool} {a : α} {b : β}

/-- In front of `bits` the read yields `a` and moves past them, and fewer of them are not enough. -/
structure TakesAll (order : BitOrder) (read : Read α) (bits : List Bool) (a : α) : Prop where
  takes : Takes order read bits a
  cutOff : ∀ (byteLength position : Nat) {short : List Bool}, IsProperPrefix short bits →
    IsCutOff (read ⟨order, byteLength, position, short⟩)

theorem takesAll_pure (a : α) : TakesAll order (pure a) [] a where
  takes := takes_pure a
  cutOff _ _ _ h := absurd h.length_lt (Nat.not_lt_zero _)

/-- **Reads in sequence.** Both of them need their bits. -/
theorem TakesAll.bind (h₁ : TakesAll order read front a) (h₂ : TakesAll order (next a) back b) :
    TakesAll order (read >>= next) (front ++ back) b := by
  refine ⟨h₁.takes.bind h₂.takes, fun byteLength position short hshort => ?_⟩
  rcases hshort.cases_append with hfront | ⟨behind, rfl, hback⟩
  · exact failsWith_bind_iff.mpr (.inl (h₁.cutOff byteLength position hfront))
  · rw [h₁.takes.run_bind]
    exact h₂.cutOff byteLength _ hback

/-- The last read of a sequence may be followed by a result made of what was read. -/
theorem TakesAll.map (h₁ : TakesAll order read front a) (h₂ : TakesAll order (next a) [] b) :
    TakesAll order (read >>= next) front b := by
  simpa only [List.append_nil] using h₁.bind h₂

theorem takesAll_field (hwidth : width ≤ maxFieldWidth) (h : n < 2 ^ width) :
    TakesAll order (field width) (order.digits width n) n := by
  refine ⟨takes_field hwidth h, fun byteLength position short hshort => ?_⟩
  have hlt := hshort.length_lt
  rw [order.length_digits] at hlt
  rw [field_eq_error hwidth hlt]
  exact failsWith_error_iff.mpr rfl

theorem takesAll_flag (bit : Bool) : TakesAll order flag [bit] bit := by
  rw [← order.digits_one bit]
  refine TakesAll.map (takesAll_field (by decide) bit.toNat_lt) ?_
  rw [toNat_beq_one]
  exact takesAll_pure bit

theorem TakesAll.noting (h : TakesAll order read front a) (note : Note) :
    TakesAll order (noting note read) front a := by
  refine ⟨fun byteLength position tail => ?_, fun byteLength position short hshort => ?_⟩
  · rw [BitStream.noting, h.takes]
    rfl
  · exact failsWith_mapError_iff.mpr (h.cutOff byteLength position hshort)

end BitStream

end WebP
