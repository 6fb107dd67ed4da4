import WebP.Chunk.Calls
import WebP.Proofs.Chunk.Tiling

/-!
# The calls of a walker and its walk

A walk lists the chunks up to the end of a range or to the first fault. A walker that is asked again
and again tells the same, one chunk for each call, and from then on nothing, or the same fault, for
ever. An iterator yields the chunks and, behind them, the fault once.

## Main definitions

* `WebP.Walker.Walk.answer`: the answer to a call, read off a walk.

## Main results

* `WebP.Walker.answer_eq`, `WebP.Walker.found_eq`: the answers and the chunks of any number of
  calls.
* `WebP.Walker.items_eq`: the items of an iterator.
* `WebP.Walker.fill_found`: the chunks of any number of calls stand one behind the other.
-/

namespace WebP

/-- The answer to the call that follows `n` others: the chunk at that place, or what stopped the
walk. -/
def Walker.Walk.answer (walk : Walker.Walk) (n : Nat) : Except Fault (Option Chunk) :=
  match walk.chunks[n]? with
  | some chunk => .ok (some chunk)
  | none =>
    match walk.fault with
    | some fault => .error fault
    | none => .ok none

namespace Walker

variable {walker after : Walker} {chunk : Chunk} {fault : Fault}

theorem call_of_next_eq_error (h : walker.next = .error fault) :
    walker.call = (.error fault, walker) := by
  rw [call, h]

theorem call_of_next_eq_none (h : walker.next = .ok none) : walker.call = (.ok none, walker) := by
  rw [call, h]

theorem call_of_next_eq_some (h : walker.next = .ok (some (chunk, after))) :
    walker.call = (.ok (some chunk), after) := by
  rw [call, h]

theorem call_eq_some_iff :
    walker.call.1 = .ok (some chunk) ↔ ∃ after, walker.next = .ok (some (chunk, after)) := by
  unfold call
  split <;> simp [*]

theorem call_eq_none_iff : walker.call.1 = .ok none ↔ walker.next = .ok none := by
  unfold call
  split <;> simp [*]

theorem call_eq_error_iff : walker.call.1 = .error fault ↔ walker.next = .error fault := by
  unfold call
  split <;> simp [*]

/-- Only a chunk moves a walker. -/
theorem call_snd_of_forall_ne (h : ∀ chunk, walker.call.1 ≠ .ok (some chunk)) :
    walker.call.2 = walker := by
  cases hn : walker.next with
  | error fault => rw [call_of_next_eq_error hn]
  | ok step =>
    cases step with
    | none => rw [call_of_next_eq_none hn]
    | some step => exact absurd (call_eq_some_iff.mpr ⟨step.2, hn⟩) (h step.1)

theorem afterCalls_succ (walker : Walker) (n : Nat) :
    walker.afterCalls (n + 1) = (walker.afterCalls n).call.2 := by
  induction n generalizing walker with
  | zero => rfl
  | succ n ih => exact ih walker.call.2

theorem answer_zero (walker : Walker) : walker.answer 0 = walker.call.1 := rfl

theorem answer_succ (walker : Walker) (n : Nat) :
    walker.answer (n + 1) = walker.call.2.answer n := rfl

/-- A walker that is answered without a chunk stays where it is for ever. -/
theorem afterCalls_of_forall_ne {n : Nat} (h : ∀ chunk, walker.answer n ≠ .ok (some chunk))
    {m : Nat} (hle : n ≤ m) : walker.afterCalls m = walker.afterCalls n := by
  induction hle with
  | refl => rfl
  | step hle ih => rw [afterCalls_succ, ih, call_snd_of_forall_ne h]

/-- **Answers.** The calls of a walker are answered with the chunks that its walk finds, and then
with what stopped the walk. -/
theorem answer_eq (walker : Walker) (n : Nat) : walker.answer n = walker.walk.answer n := by
  induction n generalizing walker with
  | zero =>
    cases hn : walker.next with
    | error fault =>
      rw [answer_zero, call_of_next_eq_error hn, walk_of_next_eq_error hn]
      rfl
    | ok step =>
      cases step with
      | none =>
        rw [answer_zero, call_of_next_eq_none hn, walk_of_next_eq_none hn]
        rfl
      | some step =>
        rw [answer_zero, call_of_next_eq_some hn, walk_of_next_eq_some hn]
        rfl
  | succ n ih =>
    rw [answer_succ, ih]
    cases hn : walker.next with
    | error fault =>
      rw [call_of_next_eq_error hn, walk_of_next_eq_error hn]
      rfl
    | ok step =>
      cases step with
      | none =>
        rw [call_of_next_eq_none hn, walk_of_next_eq_none hn]
        rfl
      | some step =>
        rw [call_of_next_eq_some hn, walk_of_next_eq_some hn]
        rfl

theorem found_of_next_eq_some (h : walker.next = .ok (some (chunk, after))) (n : Nat) :
    walker.found (n + 1) = chunk :: after.found n := by
  rw [found, call_of_next_eq_some h]

theorem found_of_forall_ne (h : ∀ chunk, walker.call.1 ≠ .ok (some chunk)) (n : Nat) :
    walker.found n = [] := by
  cases n with
  | zero => rfl
  | succ n =>
    unfold found
    split
    · rename_i chunk after hc
      exact absurd (congrArg Prod.fst hc) (h chunk)
    · rfl

/-- The first `n` calls find the first `n` chunks of the walk. -/
theorem found_eq (walker : Walker) (n : Nat) : walker.found n = walker.walk.chunks.take n := by
  induction n generalizing walker with
  | zero => rfl
  | succ n ih =>
    cases hn : walker.next with
    | error fault =>
      rw [walk_of_next_eq_error hn, found_of_forall_ne (by simp [call_of_next_eq_error hn])]
      rfl
    | ok step =>
      cases step with
      | none =>
        rw [walk_of_next_eq_none hn, found_of_forall_ne (by simp [call_of_next_eq_none hn])]
        rfl
      | some step => rw [walk_of_next_eq_some hn, found_of_next_eq_some hn, ih, List.take_succ_cons]

theorem items_of_nextItem_eq_none (h : walker.nextItem = none) : walker.items = [] := by
  unfold items
  split <;> simp_all

theorem items_of_nextItem_eq_some {item : Except Fault Chunk}
    (h : walker.nextItem = some (item, after)) : walker.items = item :: after.items := by
  rw [items]
  split <;> simp_all

/-- **Items.** An iterator yields the chunks of a walk and, if a fault stopped it, that fault behind
them. -/
theorem items_eq (walker : Walker) :
    walker.items = walker.walk.chunks.map .ok ++ walker.walk.fault.toList.map .error := by
  induction walker using walk.induct with
  | case1 walker fault hn =>
    have hitem : walker.nextItem = some (.error fault, walker.atEnd) := by rw [nextItem, hn]
    have hend : walker.atEnd.nextItem = none := rfl
    rw [walk_of_next_eq_error hn, items_of_nextItem_eq_some hitem, items_of_nextItem_eq_none hend]
    rfl
  | case2 walker hn =>
    have hitem : walker.nextItem = none := by rw [nextItem, hn]
    rw [walk_of_next_eq_none hn, items_of_nextItem_eq_none hitem]
    rfl
  | case3 walker chunk after hn ih =>
    have hitem : walker.nextItem = some (.ok chunk, after) := by rw [nextItem, hn]
    rw [walk_of_next_eq_some hn, items_of_nextItem_eq_some hitem, ih]
    rfl

/-- The chunks of the first calls stand one behind the other, from where the walker stood up to
where it stands then. -/
theorem fill_found (walker : Walker) (n : Nat) :
    Fill walker.offset (walker.afterCalls n).offset ((walker.found n).map Chunk.entry) := by
  induction n generalizing walker with
  | zero => exact .nil _
  | succ n ih =>
    by_cases h : ∃ chunk after, walker.next = .ok (some (chunk, after))
    · obtain ⟨chunk, after, hn⟩ := h
      have hrest := ih after
      rw [afterCalls, call_of_next_eq_some hn, found_of_next_eq_some hn, List.map_cons]
      obtain ⟨name, payload, back, -, -, rfl, rfl⟩ := next_eq_some_iff.mp hn
      by_cases hpad : payload.length % 2 ≤ back.length
      · rw [Nat.min_eq_left hpad] at hrest ⊢
        exact .cons (Chunk.entry ⟨.ofFourCC name, walker.offset, payload⟩) hrest
      · -- without its padding the chunk is the last one
        have hnil : back = [] := List.eq_nil_of_length_eq_zero (by omega)
        subst hnil
        have hend (offset : Nat) (chunk : Chunk) :
            (Walker.mk offset []).call.1 ≠ .ok (some chunk) := by
          rw [call_of_next_eq_none (next_eq_none_iff.mpr rfl)]
          exact fun h => by cases h
        rw [List.length_nil, Nat.min_zero, List.drop_nil, Nat.add_zero,
          found_of_forall_ne (hend _), List.map_nil,
          afterCalls_of_forall_ne (n := 0) (hend _) (Nat.zero_le n)]
        exact .unpadded (Chunk.entry ⟨.ofFourCC name, walker.offset, payload⟩)
    · have hcall (chunk : Chunk) : walker.call.1 ≠ .ok (some chunk) := by
        intro hc
        obtain ⟨after, hn⟩ := call_eq_some_iff.mp hc
        exact h ⟨chunk, after, hn⟩
      rw [found_of_forall_ne hcall,
        afterCalls_of_forall_ne (n := 0) hcall (Nat.zero_le _)]
      exact .nil _

end Walker

end WebP
