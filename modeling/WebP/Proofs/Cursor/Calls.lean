import WebP.Proofs.Cursor.Takes

/-!
# Calls to a cursor

A cursor is called to read, to peek, to skip, to mark its position or to come back to it, and to
look at bits. A call answers or fails, and it leaves a cursor.

The calls can also be carried out in place, step by step, where a position that was moved stays
moved if a later step fails. There a subtraction below zero, a slice that leaves the bytes or a
position behind their end gets stuck. As long as the position is one in the bytes, nothing gets
stuck, and each call has the same effect as before.

## Main definitions

* `WebP.CursorCall`, `WebP.CursorAnswer`, `WebP.Cursor.call`: calls, and what they do.
* `WebP.Cursor.InPlace`: steps that change a cursor in place.

## Main results

* `WebP.Cursor.call_of_lt`: a call that needs more bytes than there are is refused.
* `WebP.Cursor.InPlace.run_eq`: calls in place do not get stuck, and do the same.
-/

namespace WebP

/-- A call to a cursor. -/
inductive CursorCall where
  | readNat (width : Nat)
  | peekNat (width : Nat)
  | readBytes (count : Nat)
  | peekBytes (count : Nat)
  | skip (count : Nat)
  | mark
  | reset
  | bits (order : BitOrder)
deriving DecidableEq, Repr

/-- The answer to a call. -/
inductive CursorAnswer where
  | nat (n : Nat)
  | bytes (bytes : Bytes)
  | bits (stream : BitStream)
  | done
deriving DecidableEq, Repr

/-- How many bytes there must be for the call to succeed. -/
def CursorCall.needs : CursorCall → Nat
  | readNat width | peekNat width => width
  | readBytes count | peekBytes count | skip count => count
  | mark | reset | bits _ => 0

namespace Cursor

/-- The answer to a call and the cursor behind it. The cursor stays if there is no other one. -/
def call (cursor : Cursor) : CursorCall → Except Fault CursorAnswer × Cursor
  | .readNat width =>
    match cursor.takeNat width with
    | .ok (n, next) => (.ok (.nat n), next)
    | .error fault => (.error fault, cursor)
  | .peekNat width => ((cursor.peekNat width).map .nat, cursor)
  | .readBytes count =>
    match cursor.take count with
    | .ok (bytes, next) => (.ok (.bytes bytes), next)
    | .error fault => (.error fault, cursor)
  | .peekBytes count => ((cursor.peek count).map .bytes, cursor)
  | .skip count =>
    match cursor.skip count with
    | .ok next => (.ok .done, next)
    | .error fault => (.error fault, cursor)
  | .mark => (.ok .done, cursor.mark)
  | .reset => (.ok .done, cursor.reset)
  | .bits order => (.ok (.bits (cursor.bits order)), cursor)

variable {cursor : Cursor} {count width : Nat} {c : CursorCall}

theorem call_readBytes (count : Nat) (h : count ≤ cursor.remaining) :
    cursor.call (.readBytes count) =
      (.ok (.bytes (cursor.rest.take count)),
        { cursor with position := cursor.position + count }) := by
  rw [call, take_eq_ok h]

theorem call_readNat (width : Nat) (h : width ≤ cursor.remaining) :
    cursor.call (.readNat width) =
      (.ok (.nat (Bytes.natLE (cursor.rest.take width))),
        { cursor with position := cursor.position + width }) := by
  rw [call, takeNat, take_eq_ok h]
  rfl

theorem call_skip (count : Nat) (h : count ≤ cursor.remaining) :
    cursor.call (.skip count) =
      (.ok .done, { cursor with position := cursor.position + count }) := by
  rw [call, skip, take_eq_ok h]
  rfl

theorem call_peekBytes (count : Nat) (h : count ≤ cursor.remaining) :
    cursor.call (.peekBytes count) = (.ok (.bytes (cursor.rest.take count)), cursor) := by
  rw [call, peek_eq_ok h]
  rfl

theorem call_peekNat (width : Nat) (h : width ≤ cursor.remaining) :
    cursor.call (.peekNat width) = (.ok (.nat (Bytes.natLE (cursor.rest.take width))), cursor) := by
  rw [call, peekNat, peek_eq_ok h]
  rfl

/-- **A call that needs more bytes than there are.** It is refused, and the cursor stays. -/
theorem call_of_lt (h : cursor.remaining < c.needs) :
    cursor.call c = (.error
      ⟨.truncatedChunk, [.bytesOutOfBounds c.needs cursor.position cursor.data.length]⟩,
        cursor) := by
  cases c with
  | readNat width =>
    rw [CursorCall.needs] at h
    rw [call, takeNat, take, peek_eq_error h]
    rfl
  | peekNat width =>
    rw [CursorCall.needs] at h
    rw [call, peekNat, peek_eq_error h]
    rfl
  | readBytes count =>
    rw [CursorCall.needs] at h
    rw [call, take, peek_eq_error h]
    rfl
  | peekBytes count =>
    rw [CursorCall.needs] at h
    rw [call, peek_eq_error h]
    rfl
  | skip count =>
    rw [CursorCall.needs] at h
    rw [call, skip, take, peek_eq_error h]
    rfl
  | mark | reset | bits => exact absurd h (Nat.not_lt_zero _)

/-! ### Calls in place -/

/-- Steps that change a cursor in place. They may fail, and they may get stuck. -/
abbrev InPlace := ExceptT Fault (StateT Cursor Option)

namespace InPlace

variable {α β : Type} {step : InPlace α} {next : α → InPlace β} {after : Cursor} {a : α}
  {fault : Fault}

/-- Gets stuck unless the condition holds. -/
def inRange (condition : Prop) [Decidable condition] : InPlace Unit :=
  if condition then pure () else .mk fun _ => none

/-- The number of bytes from the position on. -/
def remaining : InPlace Nat := do
  let cursor ← get
  inRange (cursor.position ≤ cursor.data.length)
  return cursor.data.length - cursor.position

/-- The bytes at the offsets in `span`. -/
def slice (span : Span) : InPlace Bytes := do
  let cursor ← get
  inRange (span.start ≤ span.stop ∧ span.stop ≤ cursor.data.length)
  return cursor.data.slice span

/-- Moves the position. -/
def advance (count : Nat) : InPlace Unit := do
  let cursor ← get
  inRange (cursor.position + count ≤ cursor.data.length)
  set { cursor with position := cursor.position + count }

/-- Refuses to go more bytes on than there are. -/
def ensureRemaining (count : Nat) : InPlace Unit := do
  if count ≤ (← remaining) then
    return ()
  else
    let cursor ← get
    throw ⟨.truncatedChunk, [.bytesOutOfBounds count cursor.position cursor.data.length]⟩

def peekBytes (count : Nat) : InPlace Bytes := do
  ensureRemaining count
  let cursor ← get
  slice ⟨cursor.position, cursor.position + count⟩

def readBytes (count : Nat) : InPlace Bytes := do
  let bytes ← peekBytes count
  advance count
  return bytes

def peekNat (width : Nat) : InPlace Nat := do
  return (← peekBytes width).natLE

def readNat (width : Nat) : InPlace Nat := do
  let n ← peekNat width
  advance width
  return n

def skip (count : Nat) : InPlace Unit := do
  ensureRemaining count
  advance count

def bits (order : BitOrder) : InPlace BitStream := do
  let cursor ← get
  return .ofBytes order (← slice ⟨cursor.position, cursor.data.length⟩)

/-- Carries out a call. -/
def run : CursorCall → InPlace CursorAnswer
  | .readNat width => return .nat (← readNat width)
  | .peekNat width => return .nat (← peekNat width)
  | .readBytes count => return .bytes (← readBytes count)
  | .peekBytes count => return .bytes (← peekBytes count)
  | .skip count => do
    skip count
    return .done
  | .mark => do
    modify Cursor.mark
    return .done
  | .reset => do
    modify Cursor.reset
    return .done
  | .bits order => return .bits (← bits order)

theorem bind_of_ok (h : step cursor = some (.ok a, after)) :
    (step >>= next) cursor = next a after := by
  change (step cursor >>= _) = _
  rw [h]
  rfl

theorem bind_of_error (h : step cursor = some (.error fault, after)) :
    (step >>= next) cursor = some (.error fault, after) := by
  change (step cursor >>= _) = _
  rw [h]
  rfl

/-- A result made of an answer. -/
theorem map_of_ok {answer : α → β} (h : step cursor = some (.ok a, after)) :
    (do return answer (← step) : InPlace β) cursor = some (.ok (answer a), after) :=
  bind_of_ok h

theorem inRange_of {p : Prop} [Decidable p] (h : p) : inRange p cursor = some (.ok (), cursor) := by
  rw [inRange, if_pos h]
  rfl

/-- The position can be moved inside the bytes. -/
theorem advance_of_le (h : cursor.position + count ≤ cursor.data.length) :
    advance count cursor =
      some (.ok (), { cursor with position := cursor.position + count }) :=
  bind_of_ok (inRange_of h)

theorem slice_of_le {start stop : Nat} (hstart : start ≤ stop)
    (hstop : stop ≤ cursor.data.length) :
    slice ⟨start, stop⟩ cursor = some (.ok (cursor.data.slice ⟨start, stop⟩), cursor) :=
  bind_of_ok (inRange_of ⟨hstart, hstop⟩)

theorem remaining_eq (h : cursor.position ≤ cursor.data.length) :
    remaining cursor = some (.ok cursor.remaining, cursor) :=
  bind_of_ok (inRange_of h)

theorem ensureRemaining_of_le (h : cursor.position ≤ cursor.data.length)
    (hcount : count ≤ cursor.remaining) :
    ensureRemaining count cursor = some (.ok (), cursor) := by
  rw [ensureRemaining, bind_of_ok (remaining_eq h), if_pos hcount]
  rfl

theorem ensureRemaining_of_lt (h : cursor.position ≤ cursor.data.length)
    (hcount : cursor.remaining < count) :
    ensureRemaining count cursor = some (.error
      ⟨.truncatedChunk, [.bytesOutOfBounds count cursor.position cursor.data.length]⟩,
        cursor) := by
  rw [ensureRemaining, bind_of_ok (remaining_eq h), if_neg (Nat.not_le.mpr hcount)]
  rfl

theorem peekBytes_of_le (h : cursor.position ≤ cursor.data.length)
    (hcount : count ≤ cursor.remaining) :
    peekBytes count cursor = some (.ok (cursor.rest.take count), cursor) := by
  have hstop : cursor.position + count ≤ cursor.data.length := by
    rw [Cursor.remaining] at hcount
    omega
  rw [peekBytes, bind_of_ok (ensureRemaining_of_le h hcount), ← slice_position]
  exact slice_of_le (Nat.le_add_right _ _) hstop

theorem peekNat_of_le (h : cursor.position ≤ cursor.data.length)
    (hcount : count ≤ cursor.remaining) :
    peekNat count cursor = some (.ok (Bytes.natLE (cursor.rest.take count)), cursor) :=
  map_of_ok (peekBytes_of_le h hcount)

/-- **Calls in place.** From a position in the bytes none of them gets stuck, and each has the
effect of the call. -/
theorem run_eq (h : cursor.position ≤ cursor.data.length) (c : CursorCall) :
    run c cursor = some (cursor.call c) := by
  by_cases hneeds : c.needs ≤ cursor.remaining
  · have hadvance {count : Nat} (hcount : count ≤ cursor.remaining) :
        cursor.position + count ≤ cursor.data.length := by
      rw [Cursor.remaining] at hcount
      omega
    cases c with
    | readNat width =>
      rw [call_readNat width hneeds]
      exact map_of_ok ((bind_of_ok (peekNat_of_le h hneeds)).trans
        (bind_of_ok (advance_of_le (hadvance hneeds))))
    | peekNat width =>
      rw [call_peekNat width hneeds]
      exact map_of_ok (peekNat_of_le h hneeds)
    | readBytes count =>
      rw [call_readBytes count hneeds]
      exact map_of_ok ((bind_of_ok (peekBytes_of_le h hneeds)).trans
        (bind_of_ok (advance_of_le (hadvance hneeds))))
    | peekBytes count =>
      rw [call_peekBytes count hneeds]
      exact map_of_ok (peekBytes_of_le h hneeds)
    | skip count =>
      rw [call_skip count hneeds]
      exact bind_of_ok ((bind_of_ok (ensureRemaining_of_le h hneeds)).trans
        (advance_of_le (hadvance hneeds)))
    | mark => rfl
    | reset => rfl
    | bits order =>
      have hslice : cursor.data.slice ⟨cursor.position, cursor.data.length⟩ = cursor.rest := by
        rw [Bytes.slice, ← List.length_drop, List.take_length]
        rfl
      have hrest := slice_of_le h (Nat.le_refl cursor.data.length)
      rw [hslice] at hrest
      exact map_of_ok (map_of_ok hrest)
  · have hlt := Nat.not_le.mp hneeds
    have hensure := ensureRemaining_of_lt h hlt
    rw [call_of_lt hlt]
    cases c with
    | readNat width => exact bind_of_error (bind_of_error (bind_of_error (bind_of_error hensure)))
    | peekNat width => exact bind_of_error (bind_of_error (bind_of_error hensure))
    | readBytes count => exact bind_of_error (bind_of_error (bind_of_error hensure))
    | peekBytes count => exact bind_of_error (bind_of_error hensure)
    | skip count => exact bind_of_error (bind_of_error hensure)
    | mark | reset | bits => exact absurd hlt (Nat.not_lt_zero _)

end InPlace

end Cursor

end WebP
