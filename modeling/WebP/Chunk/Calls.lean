import WebP.Chunk.Walker

/-!
# Asking a walker again and again

A walker is moved in place by whoever asks it for the next chunk. It stays where it is at the end
of its range, and also in front of a chunk that it cannot read, so that there is no way past one.
Taken as an iterator, it tells of such a chunk once and is then at the end of its range.

## Main definitions

* `WebP.Walker.call`: the answer to one call, and the walker after it.
* `WebP.Walker.afterCalls`, `WebP.Walker.answer`, `WebP.Walker.found`: the walker after a number of
  calls, the answer to the call behind them, and the chunks that they found.
* `WebP.Walker.items`: all that a walker yields as an iterator.
-/

namespace WebP.Walker

/-- The answer to a call, and the walker after it. Only a chunk moves the walker. -/
def call (walker : Walker) : Except Fault (Option Chunk) × Walker :=
  match walker.next with
  | .ok (some (chunk, after)) => (.ok (some chunk), after)
  | .ok none => (.ok none, walker)
  | .error fault => (.error fault, walker)

/-- The walker after a number of calls. -/
def afterCalls (walker : Walker) : Nat → Walker
  | 0 => walker
  | n + 1 => walker.call.2.afterCalls n

/-- The answer to the call that follows `n` others. -/
def answer (walker : Walker) (n : Nat) : Except Fault (Option Chunk) :=
  (walker.afterCalls n).call.1

/-- The chunks among the answers to the first `n` calls. -/
def found (walker : Walker) : Nat → List Chunk
  | 0 => []
  | n + 1 =>
    match walker.call with
    | (.ok (some chunk), after) => chunk :: after.found n
    | _ => []

/-- The walker at the end of its range. -/
def atEnd (walker : Walker) : Walker := ⟨walker.offset + walker.rest.length, []⟩

/-- The next item of a walker that is taken as an iterator. -/
def nextItem (walker : Walker) : Option (Except Fault Chunk × Walker) :=
  match walker.next with
  | .ok (some (chunk, after)) => some (.ok chunk, after)
  | .ok none => none
  | .error fault => some (.error fault, walker.atEnd)

/-- An item takes bytes from those ahead. -/
theorem rest_length_lt_of_nextItem {walker after : Walker} {item : Except Fault Chunk}
    (h : walker.nextItem = some (item, after)) : after.rest.length < walker.rest.length := by
  unfold nextItem at h
  split at h
  · rename_i chunk next hn
    cases h
    exact rest_length_lt_of_next hn
  · cases h
  · rename_i fault hn
    cases h
    have hne : walker.rest ≠ [] := by
      intro hnil
      rw [next, if_pos hnil] at hn
      cases hn
    exact List.length_pos_iff.mpr hne

/-- All items of a walker that is taken as an iterator. -/
def items (walker : Walker) : List (Except Fault Chunk) :=
  match _h : walker.nextItem with
  | none => []
  | some (item, after) => item :: after.items
termination_by walker.rest.length
decreasing_by exact rest_length_lt_of_nextItem _h

end WebP.Walker
