import WebP.Proofs.Bytes.Slices
import WebP.Proofs.Cursor.Calls

/-!
# A cursor that is called again and again

A cursor that starts at the beginning of a byte string stays inside of it, whatever calls are made
and however many of them fail. So every call has the same meaning at all times. It is answered with
what stands behind the position if there is enough, and otherwise it is refused and changes nothing.
What is read and skipped between two positions are the bytes between them.

## Main definitions

* `WebP.Cursor.after`: a cursor behind a list of calls.
* `WebP.Cursor.AnswersExactly`: what is true of the next call to a cursor.
* `WebP.Cursor.pieces`: the bytes that calls pass over, as they are told by the answers.
* `WebP.Cursor.KeepsInside`: what is true of every history of calls.

## Main results

* `WebP.Cursor.IsInside.call`: a call keeps the cursor inside.
* `WebP.Cursor.flatten_pieces`: calls pass over the bytes between two positions.
* `WebP.Cursor.keepsInside`: all histories of calls to the cursor of a byte string.
-/

namespace WebP

/-- The bytes that a call passes over, as its answer tells. -/
def CursorCall.piece (c : CursorCall) (cursor : Cursor) : Bytes :=
  match c, (cursor.call c).1 with
  | readBytes _, .ok (.bytes bytes) => bytes
  | readNat width, .ok (.nat n) => .ofNatLE width n
  | skip count, .ok _ => cursor.rest.take count
  | _, _ => []

namespace Cursor

/-- The cursor behind calls, of which some may have failed. -/
def after (cursor : Cursor) (calls : List CursorCall) : Cursor :=
  calls.foldl (fun cursor c => (cursor.call c).2) cursor

/-- The bytes that each of the calls passes over. -/
def pieces : Cursor → List CursorCall → List Bytes
  | _, [] => []
  | cursor, c :: calls => c.piece cursor :: pieces (cursor.call c).2 calls

/-- The position and the marked one are inside of the bytes, or at their end. -/
structure IsInside (cursor : Cursor) : Prop where
  position : cursor.position ≤ cursor.data.length
  marked : cursor.marked ≤ cursor.data.length

/-- **What is true of the next call.** -/
structure AnswersExactly (cursor : Cursor) : Prop where
  inside : cursor.IsInside
  /-- In place, no difference falls below zero, no slice leaves the bytes and no position is made
  behind their end. -/
  safe : ∀ c, InPlace.run c cursor = some (cursor.call c)
  readBytes : ∀ {count : Nat}, count ≤ cursor.remaining →
    cursor.call (.readBytes count) =
      (.ok (.bytes (cursor.data.slice ⟨cursor.position, cursor.position + count⟩)),
        { cursor with position := cursor.position + count })
  readNat : ∀ {width : Nat}, width ≤ cursor.remaining →
    cursor.call (.readNat width) =
      (.ok (.nat (cursor.data.slice ⟨cursor.position, cursor.position + width⟩).natLE),
        { cursor with position := cursor.position + width })
  skip : ∀ {count : Nat}, count ≤ cursor.remaining →
    cursor.call (.skip count) = (.ok .done, { cursor with position := cursor.position + count })
  /-- A peek has the answer of the read, and the cursor stays. -/
  peekBytes : ∀ count, cursor.call (.peekBytes count) = ((cursor.call (.readBytes count)).1, cursor)
  peekNat : ∀ width, cursor.call (.peekNat width) = ((cursor.call (.readNat width)).1, cursor)
  bits : ∀ order, cursor.call (.bits order) = (.ok (.bits (.ofBytes order cursor.rest)), cursor)
  /-- A call that needs more bytes than there are fails and changes nothing. -/
  refuses : ∀ {c : CursorCall}, cursor.remaining < c.needs →
    ∃ fault : Fault, fault.cause = .truncatedChunk ∧ cursor.call c = (.error fault, cursor)
  /-- Bytes are read in two parts as they are read at once. -/
  splits_bytes : ∀ {a b : Nat} {bytes : Bytes} {next : Cursor},
    cursor.call (.readBytes (a + b)) = (.ok (.bytes bytes), next) ↔
      ∃ between, cursor.call (.readBytes a) = (.ok (.bytes (bytes.take a)), between) ∧
        between.call (.readBytes b) = (.ok (.bytes (bytes.drop a)), next)
  /-- Two numbers are read as the parts of the bytes of both. -/
  splits_nat : ∀ {a b x y : Nat} {next : Cursor},
    (∃ between, cursor.call (.readNat a) = (.ok (.nat x), between) ∧
        between.call (.readNat b) = (.ok (.nat y), next)) ↔
      ∃ bytes, cursor.call (.readBytes (a + b)) = (.ok (.bytes bytes), next) ∧
        x = Bytes.natLE (bytes.take a) ∧ y = Bytes.natLE (bytes.drop a)

/-- **What is true of every history of calls to the cursor of a byte string.** -/
structure KeepsInside (data : Bytes) : Prop where
  answers : ∀ calls, ((ofBytes data).after calls).data = data ∧
    ((ofBytes data).after calls).AnswersExactly
  /-- The cursor comes back to where it was marked last. -/
  reset_marked : ∀ {earlier later : List CursorCall}, .mark ∉ later →
    ((ofBytes data).after (earlier ++ .mark :: later ++ [.reset])).position =
      ((ofBytes data).after earlier).position
  /-- A cursor that was never marked comes back to the start. -/
  reset_unmarked : ∀ {calls : List CursorCall}, .mark ∉ calls →
    ((ofBytes data).after (calls ++ [.reset])).position = 0
  /-- Until the cursor comes back, the calls pass over the bytes between two positions, over each
  of them once and in their order. -/
  covers : ∀ {earlier run : List CursorCall}, .reset ∉ run →
    ((ofBytes data).after earlier).position ≤ ((ofBytes data).after (earlier ++ run)).position ∧
      (((ofBytes data).after earlier).pieces run).flatten =
        data.slice ⟨((ofBytes data).after earlier).position,
          ((ofBytes data).after (earlier ++ run)).position⟩

variable {cursor : Cursor} {c : CursorCall} {calls : List CursorCall} {count : Nat}

theorem after_append (cursor : Cursor) (earlier later : List CursorCall) :
    cursor.after (earlier ++ later) = (cursor.after earlier).after later :=
  List.foldl_append

theorem after_cons (cursor : Cursor) (c : CursorCall) (calls : List CursorCall) :
    cursor.after (c :: calls) = (cursor.call c).2.after calls := rfl

/-! ### One call -/

/-- A call moves the cursor on by what it needs, or comes back to the mark, or marks, or leaves the
cursor as it is. -/
theorem snd_call_cases (cursor : Cursor) (c : CursorCall) :
    (c.needs ≤ cursor.remaining ∧
      (cursor.call c).2 = { cursor with position := cursor.position + c.needs }) ∨
    (c = .reset ∧ (cursor.call c).2 = cursor.reset) ∨
    (c = .mark ∧ (cursor.call c).2 = cursor.mark) ∨ (cursor.call c).2 = cursor := by
  by_cases hneeds : c.needs ≤ cursor.remaining
  · cases c with
    | readNat width => exact .inl ⟨hneeds, congrArg Prod.snd (call_readNat width hneeds)⟩
    | readBytes count => exact .inl ⟨hneeds, congrArg Prod.snd (call_readBytes count hneeds)⟩
    | skip count => exact .inl ⟨hneeds, congrArg Prod.snd (call_skip count hneeds)⟩
    | reset => exact .inr (.inl ⟨rfl, rfl⟩)
    | mark => exact .inr (.inr (.inl ⟨rfl, rfl⟩))
    | peekNat | peekBytes | bits => exact .inr (.inr (.inr rfl))
  · exact .inr (.inr (.inr (congrArg Prod.snd (call_of_lt (Nat.not_le.mp hneeds)))))

theorem data_snd_call (cursor : Cursor) (c : CursorCall) :
    (cursor.call c).2.data = cursor.data := by
  rcases cursor.snd_call_cases c with ⟨-, h⟩ | ⟨-, h⟩ | ⟨-, h⟩ | h <;> rw [h] <;> rfl

/-- **One call.** It keeps the cursor inside of the bytes. -/
theorem IsInside.call (h : cursor.IsInside) (c : CursorCall) : (cursor.call c).2.IsInside := by
  obtain ⟨hposition, hmarked⟩ := h
  rcases cursor.snd_call_cases c with ⟨hneeds, h⟩ | ⟨-, h⟩ | ⟨-, h⟩ | h <;> rw [h]
  · rw [remaining] at hneeds
    exact ⟨Nat.add_le_of_le_sub' hposition hneeds, hmarked⟩
  · exact ⟨hmarked, hmarked⟩
  · exact ⟨hposition, hposition⟩
  · exact ⟨hposition, hmarked⟩

/-- Only a mark changes the marked position. -/
theorem marked_snd_call (h : c ≠ .mark) : (cursor.call c).2.marked = cursor.marked := by
  rcases cursor.snd_call_cases c with ⟨-, h'⟩ | ⟨-, h'⟩ | ⟨hmark, -⟩ | h'
  · rw [h']
  · rw [h']
    rfl
  · exact absurd hmark h
  · rw [h']

/-- A cursor does not move back but to its mark. -/
theorem le_position_snd_call (cursor : Cursor) (h : c ≠ .reset) :
    cursor.position ≤ (cursor.call c).2.position := by
  rcases cursor.snd_call_cases c with ⟨-, h'⟩ | ⟨hreset, -⟩ | ⟨-, h'⟩ | h'
  · rw [h']
    exact Nat.le_add_right _ _
  · exact absurd hreset h
  · rw [h']
    exact Nat.le_refl _
  · exact Nat.le_of_eq (congrArg position h'.symm)

/-- A call passes over the bytes between its two positions. -/
theorem piece_eq_slice (hinside : cursor.IsInside) (h : c ≠ .reset) :
    c.piece cursor = cursor.data.slice ⟨cursor.position, (cursor.call c).2.position⟩ := by
  have hempty : cursor.data.slice ⟨cursor.position, cursor.position⟩ = [] := by
    rw [Bytes.slice, Nat.sub_self, List.take_zero]
  by_cases hneeds : c.needs ≤ cursor.remaining
  · cases c with
    | readNat width =>
      have hstop : cursor.position + width ≤ cursor.data.length :=
        Nat.add_le_of_le_sub' hinside.position hneeds
      simp only [CursorCall.piece, call_readNat width hneeds]
      rw [← slice_position]
      exact Bytes.ofNatLE_slice rfl hstop
    | readBytes count =>
      simp only [CursorCall.piece, call_readBytes count hneeds, slice_position]
    | skip count =>
      simp only [CursorCall.piece, call_skip count hneeds, slice_position]
    | reset => exact absurd rfl h
    | mark => exact hempty.symm
    | peekNat | peekBytes | bits => exact hempty.symm
  · have hcall := call_of_lt (Nat.not_le.mp hneeds)
    rw [hcall, hempty]
    cases c <;> simp only [CursorCall.piece, hcall]

theorem call_readBytes_eq_ok_iff {bytes : Bytes} {next : Cursor} :
    cursor.call (.readBytes count) = (.ok (.bytes bytes), next) ↔
      count ≤ cursor.remaining ∧ bytes = cursor.rest.take count ∧
        next = { cursor with position := cursor.position + count } := by
  by_cases h : count ≤ cursor.remaining
  · rw [call_readBytes count h, and_iff_right h, Prod.mk.injEq, Except.ok.injEq,
      CursorAnswer.bytes.injEq, eq_comm, eq_comm (b := next)]
  · have hcall : cursor.call (.readBytes count) = _ := call_of_lt (Nat.not_le.mp h)
    rw [hcall]
    exact iff_of_false nofun fun hnext => h hnext.1

theorem call_readNat_eq_ok_iff {width n : Nat} {next : Cursor} :
    cursor.call (.readNat width) = (.ok (.nat n), next) ↔
      width ≤ cursor.remaining ∧ n = Bytes.natLE (cursor.rest.take width) ∧
        next = { cursor with position := cursor.position + width } := by
  by_cases h : width ≤ cursor.remaining
  · rw [call_readNat width h, and_iff_right h, Prod.mk.injEq, Except.ok.injEq,
      CursorAnswer.nat.injEq, eq_comm, eq_comm (b := next)]
  · have hcall : cursor.call (.readNat width) = _ := call_of_lt (Nat.not_le.mp h)
    rw [hcall]
    exact iff_of_false nofun fun hnext => h hnext.1

/-- Two moves in sequence are one move, with the cursor between them. -/
theorem exists_between_iff {a b : Nat} {next : Cursor} {p : Prop} {q : Cursor → Prop} :
    (∃ between : Cursor,
        (a ≤ cursor.remaining ∧ p ∧ between = { cursor with position := cursor.position + a }) ∧
        b ≤ between.remaining ∧ q between ∧
          next = { between with position := between.position + b }) ↔
      a + b ≤ cursor.remaining ∧ p ∧ q { cursor with position := cursor.position + a } ∧
        next = { cursor with position := cursor.position + (a + b) } := by
  have hremaining := cursor.remaining_advanced a
  constructor
  · rintro ⟨between, ⟨ha, hp, rfl⟩, hb, hq, rfl⟩
    refine ⟨by omega, hp, hq, ?_⟩
    rw [Nat.add_assoc]
  · rintro ⟨hab, hp, hq, rfl⟩
    refine ⟨_, ⟨by omega, hp, rfl⟩, by omega, hq, ?_⟩
    rw [Nat.add_assoc]

/-- The first bytes of a string, in two parts. -/
theorem eq_take_add_iff {bytes rest : Bytes} {a b : Nat} :
    bytes = rest.take (a + b) ↔
      bytes.take a = rest.take a ∧ bytes.drop a = (rest.drop a).take b := by
  constructor
  · rintro rfl
    refine ⟨?_, ?_⟩
    · rw [List.take_take, Nat.min_eq_left (Nat.le_add_right a b)]
    · rw [List.drop_take, Nat.add_sub_cancel_left]
  · rintro ⟨hfirst, hsecond⟩
    rw [List.take_add, ← hfirst, ← hsecond, List.take_append_drop]

/-- Bytes are read in two parts as they are read at once. -/
theorem call_readBytes_add {a b : Nat} {bytes : Bytes} {next : Cursor} :
    cursor.call (.readBytes (a + b)) = (.ok (.bytes bytes), next) ↔
      ∃ between, cursor.call (.readBytes a) = (.ok (.bytes (bytes.take a)), between) ∧
        between.call (.readBytes b) = (.ok (.bytes (bytes.drop a)), next) := by
  simp only [call_readBytes_eq_ok_iff]
  rw [exists_between_iff, rest_advanced_eq_drop, eq_take_add_iff, and_assoc]

/-- Two numbers are read as the parts of the bytes of both. -/
theorem exists_call_readNat_iff {a b x y : Nat} {next : Cursor} :
    (∃ between, cursor.call (.readNat a) = (.ok (.nat x), between) ∧
        between.call (.readNat b) = (.ok (.nat y), next)) ↔
      ∃ bytes, cursor.call (.readBytes (a + b)) = (.ok (.bytes bytes), next) ∧
        x = Bytes.natLE (bytes.take a) ∧ y = Bytes.natLE (bytes.drop a) := by
  simp only [call_readNat_eq_ok_iff, call_readBytes_eq_ok_iff]
  rw [exists_between_iff, rest_advanced_eq_drop]
  constructor
  · rintro ⟨hab, hx, hy, rfl⟩
    refine ⟨_, ⟨hab, rfl, rfl⟩, ?_⟩
    obtain ⟨hfirst, hsecond⟩ := eq_take_add_iff.mp (rfl : cursor.rest.take (a + b) = _)
    rw [hfirst, hsecond]
    exact ⟨hx, hy⟩
  · rintro ⟨bytes, ⟨hab, hbytes, rfl⟩, rfl, rfl⟩
    obtain ⟨hfirst, hsecond⟩ := eq_take_add_iff.mp hbytes
    rw [hfirst, hsecond]
    exact ⟨hab, rfl, rfl, rfl⟩

theorem IsInside.answersExactly (h : cursor.IsInside) : cursor.AnswersExactly where
  inside := h
  safe := InPlace.run_eq h.position
  readBytes hcount := by rw [call_readBytes _ hcount, slice_position]
  readNat hwidth := by rw [call_readNat _ hwidth, slice_position]
  skip hcount := call_skip _ hcount
  peekBytes count := by
    by_cases hcount : count ≤ cursor.remaining
    · rw [call_peekBytes count hcount, call_readBytes count hcount]
    · have hlt := Nat.not_le.mp hcount
      have hpeek : cursor.call (.peekBytes count) = _ := call_of_lt hlt
      have hread : cursor.call (.readBytes count) = _ := call_of_lt hlt
      rw [hpeek, hread]
      rfl
  peekNat width := by
    by_cases hwidth : width ≤ cursor.remaining
    · rw [call_peekNat width hwidth, call_readNat width hwidth]
    · have hlt := Nat.not_le.mp hwidth
      have hpeek : cursor.call (.peekNat width) = _ := call_of_lt hlt
      have hread : cursor.call (.readNat width) = _ := call_of_lt hlt
      rw [hpeek, hread]
      rfl
  bits _ := rfl
  refuses hlt := ⟨_, rfl, call_of_lt hlt⟩
  splits_bytes := call_readBytes_add
  splits_nat := exists_call_readNat_iff

/-! ### Histories -/

theorem isInside_ofBytes (data : Bytes) : (ofBytes data).IsInside :=
  ⟨Nat.zero_le _, Nat.zero_le _⟩

theorem data_after (cursor : Cursor) (calls : List CursorCall) :
    (cursor.after calls).data = cursor.data := by
  induction calls generalizing cursor with
  | nil => rfl
  | cons c calls ih => rw [after_cons, ih, data_snd_call]

/-- Calls keep the cursor inside of the bytes. -/
theorem IsInside.after (h : cursor.IsInside) (calls : List CursorCall) :
    (cursor.after calls).IsInside := by
  induction calls generalizing cursor with
  | nil => exact h
  | cons c calls ih => exact ih (h.call c)

/-- The marked position stays until it is marked again. -/
theorem marked_after (cursor : Cursor) (h : .mark ∉ calls) :
    (cursor.after calls).marked = cursor.marked := by
  induction calls generalizing cursor with
  | nil => rfl
  | cons c calls ih =>
    obtain ⟨hc, hcalls⟩ := not_or.mp (mt List.mem_cons.mpr h)
    rw [after_cons, ih _ hcalls, marked_snd_call (Ne.symm hc)]

/-- **Bytes between two positions.** The calls that lead from one to the other pass over each of
them once and in their order. -/
theorem flatten_pieces (hinside : cursor.IsInside) (h : .reset ∉ calls) :
    cursor.position ≤ (cursor.after calls).position ∧
      (cursor.pieces calls).flatten =
        cursor.data.slice ⟨cursor.position, (cursor.after calls).position⟩ := by
  induction calls generalizing cursor with
  | nil =>
    refine ⟨Nat.le_refl _, ?_⟩
    rw [Bytes.slice]
    exact (congrArg (List.take · _) (Nat.sub_self _)).symm
  | cons c calls ih =>
    obtain ⟨hc, hcalls⟩ := not_or.mp (mt List.mem_cons.mpr h)
    have hfirst := le_position_snd_call cursor (Ne.symm hc)
    obtain ⟨hle, hpieces⟩ := ih (hinside.call c) hcalls
    refine ⟨Nat.le_trans hfirst hle, ?_⟩
    rw [pieces, List.flatten_cons, piece_eq_slice hinside (Ne.symm hc), hpieces, data_snd_call,
      after_cons, Bytes.slice_append_slice _ hfirst hle]

example :
    (ofBytes [1, 2, 3, 4]).pieces [.readNat 1, .peekNat 2, .skip 2, .readNat 4, .readBytes 1] =
      [[1], [], [2, 3], [], [4]] := by
  decide

/-- **Histories of calls.** Whatever is called, the cursor of a byte string stays inside of it, and
each call does what it is to do. -/
theorem keepsInside (data : Bytes) : KeepsInside data where
  answers calls :=
    ⟨data_after _ calls, ((isInside_ofBytes data).after calls).answersExactly⟩
  reset_marked {earlier later} h := by
    rw [after_append, after_append, after_cons]
    exact marked_after _ h
  reset_unmarked {calls} h := by
    rw [after_append]
    exact marked_after _ h
  covers {earlier run} h := by
    have hpieces := flatten_pieces ((isInside_ofBytes data).after earlier) h
    rwa [← after_append, data_after] at hpieces

end Cursor

end WebP
