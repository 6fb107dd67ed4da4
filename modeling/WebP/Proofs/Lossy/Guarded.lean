import WebP.Lossy.Detail
import WebP.Proofs.BitStream.Takes
import WebP.Proofs.Cursor.Takes

/-!
# The detail of a lossy image, with guards

On natural numbers a subtraction below zero yields zero, and a slice of a list beyond its end is
shorter than asked for. Here both get stuck instead. The detail of a lossy image is read a second
time with these operations wherever bytes are cut out or lengths are subtracted, and the outcome is
that of the reading without guards. So no subtraction and no slice of it ever leaves its range.

## Main definitions

* `WebP.Guarded`: computations that may get stuck, with `Guarded.sub` and `Guarded.slice`.
* `WebP.Guarded.read`: the detail in a payload, read with guards.

## Main results

* `WebP.Guarded.read_eq`: the reading with guards does not get stuck, and has the same outcome.
-/

namespace WebP

/-- A computation that has a result, has a fault, or gets stuck. -/
abbrev Guarded := ExceptT Fault Option

namespace Guarded

variable {α β : Type}

/-- What does not get stuck. -/
def ofExcept (x : Except Fault α) : Guarded α := .mk (some x)

/-- The difference of two numbers, of which the second one must not be the greater one. -/
def sub (m n : Nat) : Guarded Nat := if n ≤ m then pure (m - n) else .mk none

/-- The bytes at the offsets in `span`, all of which must be there. -/
def slice (data : Bytes) (span : Span) : Guarded Bytes :=
  if span.start ≤ span.stop ∧ span.stop ≤ data.length then pure (data.slice span) else .mk none

theorem ofExcept_ok (a : α) : ofExcept (.ok a) = pure a := rfl

theorem ofExcept_bind (x : Except Fault α) (f : α → Except Fault β) :
    ofExcept (x >>= f) = ofExcept x >>= fun a => ofExcept (f a) := by
  cases x <;> rfl

theorem sub_of_le {m n : Nat} (h : n ≤ m) : sub m n = pure (m - n) := if_pos h

theorem slice_of_le {data : Bytes} {start stop : Nat} (hstart : start ≤ stop)
    (hstop : stop ≤ data.length) : slice data ⟨start, stop⟩ = pure (data.slice ⟨start, stop⟩) :=
  if_pos ⟨hstart, hstop⟩

/-! ### The bytes -/

/-- The bytes from an offset on. There are none from an offset behind the end. -/
def bytesFrom (data : Bytes) (start : Nat) : Guarded Bytes :=
  if start ≤ data.length then slice data ⟨start, data.length⟩ else pure []

/-- The number of bytes from the position on. -/
def remaining (cursor : Cursor) : Guarded Nat := sub cursor.data.length cursor.position

/-- Refuses to go more bytes on than there are. -/
def ensureRemaining (cursor : Cursor) (count : Nat) : Guarded Unit := do
  if count ≤ (← remaining cursor) then
    return ()
  else
    throw ⟨.truncatedChunk, [.bytesOutOfBounds count cursor.position cursor.data.length]⟩

/-- The cursor `count` bytes further on. -/
def skip (cursor : Cursor) (count : Nat) : Guarded Cursor := do
  ensureRemaining cursor count
  return { cursor with position := cursor.position + count }

/-- The number in the next `count` bytes, and the cursor behind them. -/
def takeNat (cursor : Cursor) (count : Nat) : Guarded (Nat × Cursor) := do
  ensureRemaining cursor count
  let bytes ← slice cursor.data ⟨cursor.position, cursor.position + count⟩
  return (bytes.natLE, { cursor with position := cursor.position + count })

/-- The sizes of token partitions, as `WebP.LossyDetail.sizesFrom` reads them. The fault is made
only where it is needed. -/
def sizesFrom (fault : Guarded Fault) : (tableLength : Nat) → Cursor → (left : Nat) →
    Guarded (List Nat)
  | 0, _, left => return [left % 0x100000000]
  | n + 1, cursor, left => do
    let (size, cursor) ← takeNat cursor 3
    if size ≤ left then
      return size :: (← sizesFrom fault n cursor (← sub left size))
    else
      throw (← fault)

/-- The sizes of the token partitions behind the first partition. -/
def partitionSizes? (data : Bytes) (partitionLength count : Nat) : Guarded (List Nat) := do
  let tableSizes ← sub count 1
  let table ← skip (.ofBytes data) partitionLength
  let fault : Guarded Fault := do
    return ⟨.truncatedChunk, [.partitionsOutOfBounds count (← sub data.length partitionLength)]⟩
  let available ← remaining table
  if 3 * tableSizes ≤ available then
    sizesFrom fault tableSizes table (← sub available (3 * tableSizes))
  else
    throw (← fault)

variable {cursor : Cursor} {count : Nat}

theorem bytesFrom_eq (data : Bytes) (start : Nat) :
    bytesFrom data start = pure (data.drop start) := by
  rw [bytesFrom]
  by_cases h : start ≤ data.length
  · rw [if_pos h, slice_of_le h (Nat.le_refl _), Bytes.slice, ← List.length_drop, List.take_length]
  · rw [if_neg h, List.drop_eq_nil_of_le (Nat.le_of_not_le h)]

theorem remaining_eq (h : cursor.position ≤ cursor.data.length) :
    remaining cursor = pure cursor.remaining := sub_of_le h

theorem ensureRemaining_eq (h : cursor.position ≤ cursor.data.length) (count : Nat) :
    ensureRemaining cursor count = ofExcept (cursor.peek count >>= fun _ => pure ()) := by
  rw [ensureRemaining, remaining_eq h, pure_bind, Cursor.peek]
  split <;> rfl

theorem skip_eq (h : cursor.position ≤ cursor.data.length) (count : Nat) :
    skip cursor count = ofExcept (cursor.skip count) := by
  rw [skip, ensureRemaining_eq h, Cursor.skip, Cursor.take]
  cases cursor.peek count <;> rfl

theorem takeNat_eq (h : cursor.position ≤ cursor.data.length) (count : Nat) :
    takeNat cursor count = ofExcept (cursor.takeNat count) := by
  rw [takeNat, ensureRemaining_eq h, Cursor.takeNat, Cursor.take]
  by_cases hcount : count ≤ cursor.remaining
  · have hstop : cursor.position + count ≤ cursor.data.length := by
      rw [Cursor.remaining] at hcount
      omega
    rw [Cursor.peek_eq_ok hcount, slice_of_le (Nat.le_add_right _ _) hstop,
      Cursor.slice_position]
    rfl
  · rw [Cursor.peek_eq_error (Nat.not_le.mp hcount)]
    rfl

/-- A number that was taken leaves the cursor among the bytes. -/
theorem position_le_of_takeNat {next : Cursor} {n : Nat}
    (h : cursor.position ≤ cursor.data.length) (htake : cursor.takeNat count = .ok (n, next)) :
    next.position ≤ next.data.length := by
  obtain ⟨hle, -, rfl⟩ := Cursor.takeNat_eq_ok_iff.mp htake
  rw [Cursor.remaining] at hle
  dsimp only
  omega

/-- The sizes are read without getting stuck, as no size is greater than what is left. -/
theorem sizesFrom_eq (fault : Fault) (n : Nat) {cursor : Cursor}
    (h : cursor.position ≤ cursor.data.length) (left : Nat) :
    sizesFrom (pure fault) n cursor left =
      ofExcept (LossyDetail.sizesFrom fault n cursor left) := by
  induction n generalizing cursor left with
  | zero => rfl
  | succ n ih =>
    rw [sizesFrom, takeNat_eq h, LossyDetail.sizesFrom, ofExcept_bind]
    cases htake : cursor.takeNat 3 with
    | error cutOff => rfl
    | ok found =>
      obtain ⟨size, next⟩ := found
      simp only [ofExcept_ok, pure_bind]
      by_cases hsize : size ≤ left
      · rw [if_pos hsize, if_pos hsize, sub_of_le hsize, pure_bind,
          ih (position_le_of_takeNat h htake), ofExcept_bind]
        rfl
      · rw [if_neg hsize, if_neg hsize]
        rfl

/-- The first partition lies in the data once it was skipped, so that the length of what is behind
it can be told. -/
theorem partitionSizes?_eq (data : Bytes) (partitionLength : Nat) {count : Nat} (h : 1 ≤ count) :
    partitionSizes? data partitionLength count =
      ofExcept (LossyDetail.partitionSizes? data partitionLength count) := by
  have hstart : (Cursor.ofBytes data).position ≤ (Cursor.ofBytes data).data.length :=
    Nat.zero_le _
  rw [partitionSizes?, sub_of_le h, pure_bind, skip_eq hstart, LossyDetail.partitionSizes?,
    ofExcept_bind]
  cases hskip : (Cursor.ofBytes data).skip partitionLength with
  | error cutOff => rfl
  | ok table =>
    obtain ⟨hle, htable⟩ := Cursor.skip_eq_ok_iff.mp hskip
    have hlength : partitionLength ≤ data.length := hle
    have hposition : table.position ≤ table.data.length := by
      rw [htable]
      exact Nat.le_trans (Nat.le_of_eq (Nat.zero_add _)) hlength
    simp only [ofExcept_ok, pure_bind, remaining_eq hposition, sub_of_le hlength]
    by_cases hfits : 3 * (count - 1) ≤ table.remaining
    · rw [if_pos hfits, if_pos hfits, sub_of_le hfits, pure_bind]
      exact sizesFrom_eq _ _ hposition _
    · rw [if_neg hfits, if_neg hfits]
      rfl

/-! ### The fields -/

/-- A read of bits, which has nothing that could get stuck. -/
def ofRead (read : BitStream.Read α) : StateT BitStream Guarded α := fun stream =>
  ofExcept (read stream)

theorem ofRead_bind (read : BitStream.Read α) (next : α → BitStream.Read β) :
    ofRead (read >>= next) = ofRead read >>= fun a => ofRead (next a) := by
  funext stream
  exact ofExcept_bind (read stream) fun found => next found.1 found.2

theorem ofRead_liftM (x : Except Fault α) :
    ofRead (liftM x) = (liftM (ofExcept x) : StateT BitStream Guarded α) := by
  cases x <;> rfl

theorem ofRead_run (read : BitStream.Read α) (stream : BitStream) :
    (ofRead read).run' stream = ofExcept (read.run' stream) := by
  rw [StateT.run', StateT.run', ofRead]
  cases read stream <;> rfl

/-- The fields behind the header of the key frame. -/
def readFields (data : Bytes) (partitionLength : Nat) : StateT BitStream Guarded LossyDetail := do
  let colorSpace ← ofRead (BitStream.field 1)
  let clampType ← ofRead (BitStream.field 1)
  let segment ← ofRead SegmentHeader.read
  let filter ← ofRead FilterHeader.read
  let partitionCount := 1 <<< (← ofRead (BitStream.field 2))
  let partitionSizes ← liftM (partitionSizes? data partitionLength partitionCount)
  let quantizer ← ofRead QuantizerHeader.read
  ofRead (BitStream.ensure ((← get).position / 8 < partitionLength) .truncatedChunk
    [.headerExceedsPartition])
  return { colorSpace, clampType, segment, filter, partitionSizes, quantizer }

/-- The detail in a payload. A payload that ends before its header does has no bytes behind it. -/
def read (payload : Bytes) (header : KeyFrameHeader) : Guarded LossyDetail := do
  let data ← bytesFrom payload KeyFrameHeader.encodedLength
  (readFields data header.partitionLength).run' (.ofBytes .mostSignificantFirst data)

theorem readFields_eq (data : Bytes) (partitionLength : Nat) :
    readFields data partitionLength = ofRead (LossyDetail.readFields data partitionLength) := by
  have hsizes (k : Nat) : partitionSizes? data partitionLength (1 <<< k) =
      ofExcept (LossyDetail.partitionSizes? data partitionLength (1 <<< k)) :=
    partitionSizes?_eq data partitionLength (Nat.one_shiftLeft k ▸ Nat.one_le_two_pow)
  rw [readFields, LossyDetail.readFields]
  simp only [ofRead_bind, ofRead_liftM, hsizes]
  rfl

/-- **Nothing gets stuck.** -/
theorem read_eq (payload : Bytes) (header : KeyFrameHeader) :
    read payload header = ofExcept (LossyDetail.read payload header) := by
  rw [read, bytesFrom_eq, pure_bind, readFields_eq, LossyDetail.read]
  exact ofRead_run (LossyDetail.readFields _ _) _

end Guarded

end WebP
