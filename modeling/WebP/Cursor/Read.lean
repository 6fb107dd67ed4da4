import WebP.Cursor
import WebP.Outcome

/-!
# Reading structures through a cursor

A structure of the file is read field by field. A field that was read stays behind the cursor
even if a later one fails, and events met on the way go to the log.

## Main definitions

* `WebP.Cursor.Read`: reading from a cursor.
* `WebP.Cursor.Read.nat`, `Read.oneBased`, `Read.fourCC`, `Read.canvasFlags`,
  `Read.frameFlags`: the fields of which the fixed-size structures are made.
-/

namespace WebP.Cursor

/-- Reading a value from a cursor. -/
def Read (α : Type) : Type := Cursor → Parsed α × Cursor

namespace Read

variable {α β : Type}

/-- Runs `read` at a cursor. -/
def run (read : Read α) (cursor : Cursor) : Parsed α × Cursor := read cursor

/-- The outcome of `read` at the start of a byte string. -/
def ofStart (read : Read α) (data : Bytes) : Parsed α := (read.run (.ofBytes data)).1

instance : Monad Read where
  pure a := fun cursor => (pure a, cursor)
  bind read next := fun cursor =>
    let (first, cursor) := read cursor
    match first.result with
    | .error fault => (⟨.error fault, first.log⟩, cursor)
    | .ok a =>
      let (second, cursor) := next a cursor
      (⟨second.result, first.log ++ second.log⟩, cursor)

/-- Nothing is read; the outcome is the given one. -/
def lift (outcome : Parsed α) : Read α := fun cursor => (outcome, cursor)

/-- A read that leaves the cursor in its place when it is refused. -/
def ofStep (step : Cursor → Except Fault (α × Cursor)) : Read α := fun cursor =>
  match step cursor with
  | .ok (a, next) => (pure a, next)
  | .error fault => (.error fault, cursor)

/-- Nothing is read; the fault is the given one. -/
def fail (cause : Cause) (notes : List Note) : Read α := lift (.error ⟨cause, notes⟩)

/-- Refuses what does not meet a condition. -/
def ensure (condition : Prop) [Decidable condition] (cause : Cause) (notes : List Note) :
    Read Unit :=
  if condition then pure () else fail cause notes

/-- Whatever fails while `read` runs gets a note. -/
def noting (note : Note) (read : Read α) : Read α := fun cursor =>
  let (outcome, cursor) := read cursor
  (outcome.noting note, cursor)

/-- A field of a chunk, named in the note on its failure. -/
def field (chunk : FourCC) (name : String) (read : Read α) : Read α :=
  noting (.readingField chunk name) read

/-- The number of bytes left. -/
def remaining : Read Nat := fun cursor => (pure cursor.remaining, cursor)

/-- The bits from the cursor on; the cursor stays. -/
def bits (order : BitOrder) : Read BitStream := fun cursor => (pure (cursor.bits order), cursor)

/-- The next `count` bytes; their absence has no note. -/
def bytes (count : Nat) : Read Bytes := ofStep fun cursor =>
  if count ≤ cursor.remaining then cursor.take count else .error ⟨.truncatedChunk, []⟩

/-- A number of `width` bytes. -/
def nat (width : Nat) : Read Nat := do return (← bytes width).natLE

/-- A number of three bytes that is stored less one. -/
def oneBased : Read Nat := do return (← nat 3) + 1

/-- A four-character code. -/
def fourCC : Read FourCC := ofStep fun cursor =>
  match FourCC.ofBytes? cursor.rest with
  | some code => .ok (code, { cursor with position := cursor.position + 4 })
  | none => .error ⟨.truncatedChunk, []⟩

/-- Flags of the extended header, in four bytes. -/
def canvasFlags : Read CanvasFlags := do
  let bits ← nat 4
  let flags := CanvasFlags.ofBits bits
  lift (Outcome.emitIf (flags.bits ≠ bits) (.undefinedCanvasFlags flags bits))
  return flags

/-- Flags of a frame, in one byte. -/
def frameFlags : Read FrameFlags := do
  let bits ← nat 1
  let flags := FrameFlags.ofBits bits
  lift (Outcome.emitIf (flags.bits ≠ bits) (.undefinedFrameFlags flags bits))
  return flags

@[simp] theorem run_pure (a : α) (cursor : Cursor) :
    (pure a : Read α).run cursor = (pure a, cursor) := rfl

/-- The second read starts where the first one ended, and only if that one succeeded. -/
theorem run_bind (read : Read α) (next : α → Read β) (cursor : Cursor) :
    (read >>= next).run cursor =
      match (read.run cursor).1.result with
      | .error fault => (⟨.error fault, (read.run cursor).1.log⟩, (read.run cursor).2)
      | .ok a =>
        (⟨((next a).run (read.run cursor).2).1.result,
          (read.run cursor).1.log ++ ((next a).run (read.run cursor).2).1.log⟩,
          ((next a).run (read.run cursor).2).2) := rfl

theorem run_bytes_of_le {count : Nat} {cursor : Cursor} (h : count ≤ cursor.remaining) :
    (bytes count).run cursor =
      (pure (cursor.rest.take count), { cursor with position := cursor.position + count }) := by
  simp [run, bytes, ofStep, h, take_eq_ok h]

theorem run_bytes_of_lt {count : Nat} {cursor : Cursor} (h : cursor.remaining < count) :
    (bytes count).run cursor = (.error ⟨.truncatedChunk, []⟩, cursor) := by
  simp [run, bytes, ofStep, Nat.not_le.mpr h]

end Read

end WebP.Cursor
