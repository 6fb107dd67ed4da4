import WebP.Cursor.Read
import WebP.Proofs.Bytes.LittleEndian

/-!
# What a read takes

A read of a structure succeeds on every input that begins with the bytes of a value, takes
exactly these bytes and yields the value, whatever follows them. Such facts compose as the reads
do.

## Main definitions

* `WebP.Cursor.Read.Takes`: a read takes given bytes and yields a given value.

## Main results

* `WebP.Cursor.Read.Takes.bind`: what two reads in sequence take.
* `WebP.Cursor.Read.Takes.ofStart`: the outcome at the start of a byte string.
-/

namespace WebP.Cursor

theorem rest_advanced {cursor : Cursor} {bytes tail : Bytes} (h : cursor.rest = bytes ++ tail) :
    ({ cursor with position := cursor.position + bytes.length } : Cursor).rest = tail := by
  have hd := congrArg (List.drop bytes.length) h
  rw [rest, List.drop_drop, List.drop_left] at hd
  exact hd

theorem remaining_advanced (cursor : Cursor) (count : Nat) :
    ({ cursor with position := cursor.position + count } : Cursor).remaining =
      cursor.remaining - count :=
  (Nat.sub_sub _ _ _).symm

theorem rest_advanced_eq_drop (cursor : Cursor) (count : Nat) :
    ({ cursor with position := cursor.position + count } : Cursor).rest = cursor.rest.drop count :=
  List.drop_drop.symm

theorem remaining_eq_length (cursor : Cursor) : cursor.remaining = cursor.rest.length := by
  rw [remaining, rest, List.length_drop]

/-- The number in the next bytes. -/
theorem takeNat_eq_ok {cursor : Cursor} {bytes tail : Bytes}
    (h : cursor.rest = bytes ++ tail) :
    cursor.takeNat bytes.length =
      .ok (bytes.natLE, { cursor with position := cursor.position + bytes.length }) := by
  have hle : bytes.length ≤ cursor.remaining := by
    rw [remaining_eq_length, h, List.length_append]
    omega
  rw [takeNat, take_eq_ok hle, h]
  simp only [bind, Except.bind, pure, Except.pure, List.take_left]

theorem slice_position (cursor : Cursor) (count : Nat) :
    cursor.data.slice ⟨cursor.position, cursor.position + count⟩ = cursor.rest.take count := by
  rw [Bytes.slice, rest]
  dsimp only
  rw [Nat.add_sub_cancel_left]

/-- The cursor moves as far as there are bytes. -/
theorem skip_eq_ok_iff {cursor next : Cursor} {count : Nat} :
    cursor.skip count = .ok next ↔ count ≤ cursor.remaining ∧
      next = { cursor with position := cursor.position + count } := by
  by_cases h : count ≤ cursor.remaining
  · rw [skip, take_eq_ok h, and_iff_right h]
    exact (Except.ok.injEq _ _).to_iff.trans eq_comm
  · rw [skip, take, peek_eq_error (Nat.not_le.mp h)]
    exact iff_of_false (by rintro ⟨⟩) fun hnext => h hnext.1

theorem takeNat_eq_ok_iff {cursor next : Cursor} {count n : Nat} :
    cursor.takeNat count = .ok (n, next) ↔ count ≤ cursor.remaining ∧
      n = Bytes.natLE (cursor.rest.take count) ∧
      next = { cursor with position := cursor.position + count } := by
  by_cases h : count ≤ cursor.remaining
  · rw [takeNat, take_eq_ok h, and_iff_right h]
    refine (Except.ok.injEq _ _).to_iff.trans ?_
    rw [Prod.mk.injEq, eq_comm, eq_comm (a := next)]
  · rw [takeNat, take, peek_eq_error (Nat.not_le.mp h)]
    exact iff_of_false (by rintro ⟨⟩) fun hnext => h hnext.1

namespace Read

variable {α β : Type}

/-- Two reads in sequence succeed exactly when each of them does. -/
theorem result_run_bind_eq_ok {read : Read α} {next : α → Read β} {cursor : Cursor} {b : β} :
    ((read >>= next).run cursor).1.result = .ok b ↔
      ∃ a, (read.run cursor).1.result = .ok a ∧
        ((next a).run (read.run cursor).2).1.result = .ok b := by
  rw [run_bind]
  cases (read.run cursor).1.result with
  | error fault => simp only [reduceCtorEq, false_and, exists_false]
  | ok a => simp only [Except.ok.injEq, exists_eq_left']

/-- A condition is all that is asked for. -/
theorem result_run_ensure_eq_ok {p : Prop} [Decidable p] {cause : Cause} {notes : List Note}
    {cursor : Cursor} {u : Unit} :
    ((Read.ensure p cause notes).run cursor).1.result = .ok u ↔ p := by
  unfold Read.ensure
  split
  · exact iff_of_true rfl ‹p›
  · exact iff_of_false nofun ‹¬ p›

/-- A condition leaves the cursor where it is. -/
theorem snd_run_ensure {p : Prop} [Decidable p] {cause : Cause} {notes : List Note}
    {cursor : Cursor} : ((Read.ensure p cause notes).run cursor).2 = cursor := by
  unfold Read.ensure
  split <;> rfl

/-- In front of `bytes` the read yields `a` and moves past exactly these bytes. -/
def Takes (read : Read α) (bytes : Bytes) (a : α) : Prop :=
  ∀ (cursor : Cursor) (tail : Bytes), cursor.rest = bytes ++ tail →
    (read.run cursor).1.result = .ok a ∧
      (read.run cursor).2 = { cursor with position := cursor.position + bytes.length }

theorem takes_pure (a : α) : Takes (pure a) [] a :=
  fun _ _ _ => ⟨rfl, rfl⟩

/-- **Reads in sequence.** The second read takes what stands behind the bytes of the first. -/
theorem Takes.bind {read : Read α} {next : α → Read β} {front back : Bytes} {a : α} {b : β}
    (h₁ : Takes read front a) (h₂ : Takes (next a) back b) :
    Takes (read >>= next) (front ++ back) b := by
  intro cursor tail hc
  rw [List.append_assoc] at hc
  obtain ⟨hr, hn⟩ := h₁ cursor (back ++ tail) hc
  obtain ⟨hr', hn'⟩ := h₂ _ tail (rest_advanced hc)
  rw [run_bind, hr]
  simp only [hn]
  refine ⟨hr', hn'.trans ?_⟩
  rw [List.length_append, Nat.add_assoc]

/-- A step that reads nothing stands in front of a read without changing what is taken. -/
theorem Takes.lift_bind {outcome : Parsed α} {next : α → Read β} {bytes : Bytes} {a : α} {b : β}
    (h₁ : outcome.result = .ok a) (h₂ : Takes (next a) bytes b) :
    Takes (lift outcome >>= next) bytes b := by
  have h : Takes (lift outcome) [] a := fun _ _ _ => ⟨h₁, rfl⟩
  exact h.bind h₂

/-- The last read of a sequence may be followed by a result made of what was read. -/
theorem Takes.map {read : Read α} {next : α → Read β} {bytes : Bytes} {a : α} {b : β}
    (h₁ : Takes read bytes a) (h₂ : Takes (next a) [] b) : Takes (read >>= next) bytes b := by
  simpa only [List.append_nil] using h₁.bind h₂

theorem Takes.noting {read : Read α} {bytes : Bytes} {a : α} (h : Takes read bytes a)
    (note : Note) : Takes (noting note read) bytes a := by
  intro cursor tail hc
  obtain ⟨hr, hn⟩ := h cursor tail hc
  refine ⟨?_, hn⟩
  change (read.run cursor).1.result.mapError _ = _
  rw [hr]
  rfl

theorem Takes.field {read : Read α} {bytes : Bytes} {a : α} (h : Takes read bytes a)
    (chunk : FourCC) (name : String) : Takes (field chunk name read) bytes a :=
  h.noting _

theorem takes_bytes (data : Bytes) : Takes (bytes data.length) data data := by
  intro cursor tail hc
  have hle : data.length ≤ cursor.remaining := by
    rw [remaining_eq_length, hc, List.length_append]
    omega
  rw [run_bytes_of_le hle, hc, List.take_left]
  exact ⟨rfl, rfl⟩

/-- A number of the width of the bytes is the number that they form. -/
theorem takes_nat {width : Nat} {data : Bytes} (h : data.length = width) :
    Takes (nat width) data data.natLE := by
  subst h
  exact (takes_bytes data).map (takes_pure _)

theorem takes_oneBased {data : Bytes} (h : data.length = 3) :
    Takes oneBased data (data.natLE + 1) :=
  (takes_nat h).map (takes_pure _)

theorem takes_canvasFlags {data : Bytes} (h : data.length = 4) :
    Takes canvasFlags data (.ofBits data.natLE) :=
  (takes_nat h).map (.lift_bind (Outcome.result_emitIf _ _) (takes_pure _))

theorem takes_frameFlags {data : Bytes} (h : data.length = 1) :
    Takes frameFlags data (.ofBits data.natLE) :=
  (takes_nat h).map (.lift_bind (Outcome.result_emitIf _ _) (takes_pure _))

/-! ### Fields written by value -/

theorem takes_nat_ofNatLE {width n : Nat} (h : n < 256 ^ width) :
    Takes (nat width) (.ofNatLE width n) n := by
  simpa only [Bytes.natLE_ofNatLE h] using takes_nat (Bytes.length_ofNatLE width n)

/-- A number from one up to `2 ^ 24` is stored less one in three bytes. -/
theorem takes_oneBased_ofNatLE {n : Nat} (hpos : 0 < n) (hle : n ≤ 2 ^ 24) :
    Takes oneBased (.ofNatLE 3 (n - 1)) n := by
  have hlt : n - 1 < 256 ^ 3 := by omega
  have h := takes_oneBased (Bytes.length_ofNatLE 3 (n - 1))
  rwa [Bytes.natLE_ofNatLE hlt, Nat.sub_add_cancel hpos] at h

theorem takes_canvasFlags_bits (flags : CanvasFlags) :
    Takes canvasFlags (.ofNatLE 4 flags.bits) flags := by
  have hlt : flags.bits < 256 ^ 4 := by
    obtain ⟨a, b, c, d, e⟩ := flags
    cases a <;> cases b <;> cases c <;> cases d <;> cases e <;> decide
  have h := takes_canvasFlags (Bytes.length_ofNatLE 4 flags.bits)
  rwa [Bytes.natLE_ofNatLE hlt, CanvasFlags.ofBits_bits] at h

theorem takes_frameFlags_bits (flags : FrameFlags) :
    Takes frameFlags (.ofNatLE 1 flags.bits) flags := by
  have hlt : flags.bits < 256 ^ 1 := by
    obtain ⟨a, b⟩ := flags
    cases a <;> cases b <;> decide
  have h := takes_frameFlags (Bytes.length_ofNatLE 1 flags.bits)
  rwa [Bytes.natLE_ofNatLE hlt, FrameFlags.ofBits_bits] at h

theorem takes_fourCC (code : FourCC) : Takes fourCC code.bytes code := by
  intro cursor tail hc
  simp only [run, fourCC, ofStep, hc, FourCC.ofBytes?_bytes_append]
  exact ⟨rfl, rfl⟩

/-- A byte string that begins with the bytes of a value is read as that value. -/
theorem Takes.ofStart {read : Read α} {front : Bytes} {a : α} (h : Takes read front a)
    (back : Bytes) : (read.ofStart (front ++ back)).result = .ok a :=
  (h (.ofBytes (front ++ back)) back rfl).1

end Read

end WebP.Cursor
