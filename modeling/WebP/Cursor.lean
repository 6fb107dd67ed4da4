import WebP.BitStream

/-!
# Cursors

A cursor is a place in a byte string from which integers, bytes and bits are read. A read that
would run past the end is refused and leaves the cursor where it is.

## Main definitions

* `WebP.Cursor`: a byte string, a position in it, and a marked position to come back to.
* `WebP.Cursor.peek`, `WebP.Cursor.take`: the next bytes, without and with moving past them.
-/

namespace WebP

/-- A position in a byte string, and one that was marked. -/
structure Cursor where
  data : Bytes
  position : Nat := 0
  marked : Nat := 0
deriving DecidableEq, Repr

namespace Cursor

/-- The cursor at the start of a byte string. -/
def ofBytes (data : Bytes) : Cursor := { data }

/-- The bytes from the position on. -/
def rest (cursor : Cursor) : Bytes := cursor.data.drop cursor.position

/-- The number of bytes from the position on. -/
def remaining (cursor : Cursor) : Nat := cursor.data.length - cursor.position

/-- Marks the position. -/
def mark (cursor : Cursor) : Cursor := { cursor with marked := cursor.position }

/-- Moves to the marked position. -/
def reset (cursor : Cursor) : Cursor := { cursor with position := cursor.marked }

/-- Moves `count` bytes on, if there are that many. -/
def advance? (cursor : Cursor) (count : Nat) : Option Cursor :=
  if count ≤ cursor.remaining then
    some { cursor with position := cursor.position + count }
  else
    none

/-- The next `count` bytes. -/
def peek (cursor : Cursor) (count : Nat) : Except Fault Bytes :=
  if count ≤ cursor.remaining then
    .ok (cursor.rest.take count)
  else
    .error ⟨.truncatedChunk, [.bytesOutOfBounds count cursor.position cursor.data.length]⟩

/-- The next `count` bytes, and the cursor behind them. -/
def take (cursor : Cursor) (count : Nat) : Except Fault (Bytes × Cursor) := do
  return (← cursor.peek count, { cursor with position := cursor.position + count })

/-- The cursor `count` bytes further on. -/
def skip (cursor : Cursor) (count : Nat) : Except Fault Cursor := do
  return (← cursor.take count).2

/-- The number in the next `count` bytes. -/
def peekNat (cursor : Cursor) (count : Nat) : Except Fault Nat := do
  return (← cursor.peek count).natLE

/-- The number in the next `count` bytes, and the cursor behind them. -/
def takeNat (cursor : Cursor) (count : Nat) : Except Fault (Nat × Cursor) := do
  let (bytes, next) ← cursor.take count
  return (bytes.natLE, next)

/-- The bits from the position on. -/
def bits (cursor : Cursor) (order : BitOrder) : BitStream := .ofBytes order cursor.rest

theorem peek_eq_ok {cursor : Cursor} {count : Nat} (h : count ≤ cursor.remaining) :
    cursor.peek count = .ok (cursor.rest.take count) := if_pos h

theorem peek_eq_error {cursor : Cursor} {count : Nat} (h : cursor.remaining < count) :
    cursor.peek count =
      .error ⟨.truncatedChunk, [.bytesOutOfBounds count cursor.position cursor.data.length]⟩ :=
  if_neg (Nat.not_le.mpr h)

theorem take_eq_ok {cursor : Cursor} {count : Nat} (h : count ≤ cursor.remaining) :
    cursor.take count =
      .ok (cursor.rest.take count, { cursor with position := cursor.position + count }) := by
  rw [take, peek_eq_ok h]
  rfl

end Cursor

end WebP
