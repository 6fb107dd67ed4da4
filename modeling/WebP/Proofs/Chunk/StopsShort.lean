import WebP.Proofs.Chunk.Tiling
import WebP.Proofs.Outcome.FailsWith

/-!
# Ranges that stop short

The chunks of a range are taken one after another. Bytes are found to be missing in one of two
places: the range ends inside a chunk, or a chunk is there whose payload is cut short by what the
step that takes it asks for. In front of that place stands a run of chunks that are taken, with all
their padding.

## Main definitions

* `WebP.Bytes.EndsInsideChunk`: bytes that end before the chunk that they begin does.
* `WebP.StopsShort`: a range in which bytes are found to be missing.

## Main results

* `WebP.Walker.walk_append`: a walk finds a run of chunks first, and then what is behind it.
* `WebP.Walker.runsOut_fold_iff`: in which ranges bytes are found to be missing.
-/

namespace WebP

open Outcome

/-! ### One step -/

/-- The bytes end inside the header or inside the payload of the chunk that they begin, the length
of which is not too large. -/
def Bytes.EndsInsideChunk (bytes : Bytes) : Prop :=
  bytes ≠ [] ∧ (bytes.length < 8 ∨ ∃ (name : FourCC) (length : Nat) (body : Bytes),
    bytes = (ChunkHeader.mk name length).encode ++ body ∧ length ≤ maxPayloadLength ∧
      body.length < length)

namespace Walker

/-- A step lacks bytes exactly if the bytes ahead end inside a chunk. -/
theorem runsOut_next_iff {walker : Walker} :
    RunsOut walker.next ↔ walker.rest.EndsInsideChunk := by
  constructor
  · rintro ⟨fault, hn, hrecoverable⟩
    rcases next_eq_error_iff.mp hn with ⟨hne, hshort, -⟩ | ⟨header, body, hrest, -, hcases⟩
    · exact ⟨hne, .inl hshort⟩
    · rcases hcases with ⟨-, rfl⟩ | ⟨hmax, hbody, -⟩
      · exact absurd hrecoverable Bool.false_ne_true
      · exact ⟨hrest ▸ ChunkHeader.encode_append_ne_nil header body,
          .inr ⟨header.name, header.length, body, hrest, hmax, hbody⟩⟩
  · rintro ⟨hne, hshort | ⟨name, length, body, hrest, hmax, hbody⟩⟩
    · exact ⟨_, next_eq_error_iff.mpr (.inl ⟨hne, hshort, rfl⟩), rfl⟩
    · have hlt : length < 2 ^ 32 := by
        rw [maxPayloadLength] at hmax
        omega
      exact ⟨_, next_eq_error_iff.mpr
        (.inr ⟨⟨name, length⟩, body, hrest, hlt, .inr ⟨hmax, hbody, rfl⟩⟩), rfl⟩

/-! ### Runs in front of something else -/

theorem next_of_walk_eq_cons {walker : Walker} {chunk : Chunk} {chunks : List Chunk}
    {fault : Option Fault} (h : walker.walk = ⟨chunk :: chunks, fault⟩) :
    ∃ after, walker.next = .ok (some (chunk, after)) ∧ after.walk = ⟨chunks, fault⟩ := by
  cases hn : walker.next with
  | error stop =>
    rw [walk_of_next_eq_error hn] at h
    cases h
  | ok found =>
    cases found with
    | none =>
      rw [walk_of_next_eq_none hn] at h
      cases h
    | some step =>
      rw [walk_of_next_eq_some hn, Walk.mk.injEq, List.cons.injEq] at h
      obtain ⟨⟨rfl, rfl⟩, rfl⟩ := h
      exact ⟨step.2, rfl, rfl⟩

theorem next_of_walk_eq_fault {walker : Walker} {fault : Fault}
    (h : walker.walk = ⟨[], some fault⟩) : walker.next = .error fault := by
  cases hn : walker.next with
  | error stop =>
    rw [walk_of_next_eq_error hn] at h
    cases h
    rfl
  | ok found =>
    cases found with
    | none =>
      rw [walk_of_next_eq_none hn] at h
      cases h
    | some step =>
      rw [walk_of_next_eq_some hn] at h
      cases h

/-- **A run in front.** Behind a run of chunks with all their padding, a walk goes on with what
follows. -/
theorem walk_append {offset : Nat} {run rest : Bytes} {front : List Chunk}
    (h : Tiles offset run front) (padded : run.length % 2 = 0)
    (hlt : (run ++ rest).length < 2 ^ 32) :
    (Walker.mk offset (run ++ rest)).walk =
      ⟨front ++ (Walker.mk (offset + run.length) rest).walk.chunks,
        (Walker.mk (offset + run.length) rest).walk.fault⟩ := by
  induction h with
  | nil offset => rfl
  | @cons offset chunks name payload pad run length_lt length_pad tail ih =>
    simp only [List.length_append, ChunkHeader.length_encode] at hlt padded
    have hmax : payload.length ≤ maxPayloadLength := by
      rw [maxPayloadLength]
      omega
    have hmin : min (payload.length % 2) (pad ++ (run ++ rest)).length = pad.length := by
      rw [List.length_append]
      omega
    have hdrop : (pad ++ (run ++ rest)).drop (payload.length % 2) = run ++ rest := by
      rw [← length_pad, List.drop_left]
    have hstep := next_encode offset name (pad ++ (run ++ rest)) hmax
    rw [hmin, hdrop] at hstep
    have hrest := ih (by omega) (by rw [List.length_append]; omega)
    have hafter : offset + 8 + payload.length + pad.length + run.length =
        offset + ((ChunkHeader.mk name payload.length).encode ++
          (payload ++ (pad ++ run))).length := by
      simp only [List.length_append, ChunkHeader.length_encode]
      omega
    rw [hafter] at hrest
    simp only [List.append_assoc]
    rw [walk_of_next_eq_some hstep, hrest]
    rfl
  | @unpadded offset name payload length_lt length_odd =>
    rw [List.length_append, ChunkHeader.length_encode] at padded
    omega

/-- The chunks that a walk finds first, with more behind them, are a run in front of the rest. -/
theorem exists_run_of_walk {walker : Walker} {front back : List Chunk} {fault : Option Fault}
    (h : walker.walk = ⟨front ++ back, fault⟩) (hmore : back ≠ [] ∨ fault ≠ none) :
    ∃ run rest, walker.rest = run ++ rest ∧ Tiles walker.offset run front ∧
      run.length % 2 = 0 ∧ (Walker.mk (walker.offset + run.length) rest).walk = ⟨back, fault⟩ := by
  induction front generalizing walker with
  | nil => exact ⟨[], walker.rest, rfl, .nil _, rfl, h⟩
  | cons chunk front ih =>
    obtain ⟨after, hnext, hafter⟩ := next_of_walk_eq_cons h
    obtain ⟨run, rest, hsplit, htiles, hpadded, hrest⟩ := ih hafter
    obtain ⟨name, payload, behind, hbytes, hmax, rfl, rfl⟩ := next_eq_some_iff.mp hnext
    dsimp only at hsplit htiles hrest
    have hpad : payload.length % 2 ≤ behind.length := by
      -- without its padding the chunk would be the last one, and the walk would end behind it
      refine Nat.le_of_not_lt fun hshort => ?_
      have hnil : behind.drop (payload.length % 2) = [] :=
        List.drop_of_length_le (Nat.le_of_lt hshort)
      rw [hnil] at hsplit hafter
      rw [walk_nil, Walk.mk.injEq] at hafter
      obtain ⟨hchunks, rfl⟩ := hafter
      rcases hmore with hback | hfault
      · exact hback (List.append_eq_nil_iff.mp hchunks.symm).2
      · exact hfault rfl
    have hlength : (behind.take (payload.length % 2)).length = payload.length % 2 := by
      rw [List.length_take]
      omega
    rw [Nat.min_eq_left hpad] at htiles hrest
    refine ⟨(ChunkHeader.mk name payload.length).encode ++
      (payload ++ (behind.take (payload.length % 2) ++ run)), rest, ?_, ?_, ?_, ?_⟩
    · calc walker.rest
          = (ChunkHeader.mk name payload.length).encode ++ (payload ++
              (behind.take (payload.length % 2) ++ behind.drop (payload.length % 2))) := by
            rw [List.take_append_drop, hbytes]
        _ = _ := by
          rw [hsplit]
          simp only [List.append_assoc]
    · exact .cons name payload _ run (length_lt_of_le_max hmax) hlength (by rwa [hlength])
    · simp only [List.length_append, ChunkHeader.length_encode, hlength]
      omega
    · rw [← hrest]
      congr 2
      simp only [List.length_append, ChunkHeader.length_encode, hlength]
      omega

end Walker

/-! ### Taking the chunks of a range -/

/-- In the range that begins at `offset` bytes are missing, behind chunks that are taken. -/
inductive StopsShort (Taken : List Chunk → Prop) (Cut : List Chunk → Chunk → Prop)
    (offset : Nat) : Bytes → Prop
  /-- The range ends inside a chunk. -/
  | insideChunk {run rest : Bytes} {front : List Chunk} (tiles : Tiles offset run front)
      (padded : run.length % 2 = 0) (taken : Taken front) (ends : rest.EndsInsideChunk) :
      StopsShort Taken Cut offset (run ++ rest)
  /-- A chunk is there, but behind the others its payload is cut short. -/
  | insidePayload {run payload : Bytes} {front : List Chunk} (name : FourCC) (back : Bytes)
      (tiles : Tiles offset run front) (padded : run.length % 2 = 0) (taken : Taken front)
      (cut : Cut front ⟨.ofFourCC name, offset + run.length, payload⟩) :
      StopsShort Taken Cut offset
        (run ++ ((ChunkHeader.mk name payload.length).encode ++ (payload ++ back)))

section Fold

variable {σ : Type} {step : σ → Chunk → Parsed σ} {start : σ} {Taken : List Chunk → Prop}
  {Cut : List Chunk → Chunk → Prop} {offset : Nat} {bytes : Bytes}
  (htaken : ∀ front, (∀ chunk ∈ front, chunk.payload.length < 2 ^ 32) →
    ((∃ state, (front.foldlM step start).result = .ok state) ↔ Taken front))
  (hcut : ∀ front chunk state, (∀ chunk ∈ front, chunk.payload.length < 2 ^ 32) →
    chunk.payload.length < 2 ^ 32 → (front.foldlM step start).result = .ok state →
      (RunsOut (step state chunk).result ↔ Cut front chunk))

/-- Taking the chunks of a walk fails at one of the chunks, or where the walk does. -/
theorem Walker.Walk.failsWith_fold_iff {Q : Fault → Prop} {walk : Walker.Walk} :
    FailsWith Q (walk.fold step start).result ↔
      (∃ front chunk back state, walk.chunks = front ++ chunk :: back ∧
        (front.foldlM step start).result = .ok state ∧ FailsWith Q (step state chunk).result) ∨
      ∃ state fault, (walk.chunks.foldlM step start).result = .ok state ∧
        walk.fault = some fault ∧ Q fault := by
  rw [fold, result_bind, failsWith_bind_iff, failsWith_foldlM_iff]
  refine or_congr_right (exists_congr fun state => ?_)
  cases walk.fault with
  | none => simp only [result_pure, failsWith_ok_iff, and_false, reduceCtorEq, false_and,
      exists_false]
  | some fault => simp only [result_error, failsWith_error_iff, Option.some.injEq,
      exists_and_left, exists_eq_left']

include htaken hcut

theorem StopsShort.runsOut_fold (h : StopsShort Taken Cut offset bytes)
    (hlt : bytes.length < 2 ^ 32) :
    RunsOut ((Walker.mk offset bytes).walk.fold step start).result := by
  cases h with
  | @insideChunk run rest front tiles padded taken ends =>
    obtain ⟨state, hstate⟩ := (htaken front fun _ => tiles.length_lt).mpr taken
    obtain ⟨fault, hfault, hstatus⟩ := Walker.runsOut_next_iff.mpr
      (show (Walker.mk (offset + run.length) rest).rest.EndsInsideChunk from ends)
    rw [Walker.walk_append tiles padded hlt, Walker.walk_of_next_eq_error hfault, List.append_nil]
    exact Walker.Walk.failsWith_fold_iff.mpr (.inr ⟨state, fault, hstate, rfl, hstatus⟩)
  | @insidePayload run payload front name back tiles padded taken cut =>
    have hmax : payload.length ≤ maxPayloadLength := by
      simp only [List.length_append, ChunkHeader.length_encode] at hlt
      rw [maxPayloadLength]
      omega
    have hsized : ∀ chunk ∈ front, chunk.payload.length < 2 ^ 32 := fun _ => tiles.length_lt
    obtain ⟨state, hstate⟩ := (htaken front hsized).mpr taken
    have hout := (hcut front _ state hsized (Walker.length_lt_of_le_max hmax) hstate).mpr cut
    rw [Walker.walk_append tiles padded hlt,
      Walker.walk_of_next_eq_some (Walker.next_encode _ name back hmax)]
    exact Walker.Walk.failsWith_fold_iff.mpr (.inl ⟨front, _, _, state, rfl, hstate, hout⟩)

theorem stopsShort_of_runsOut_fold
    (h : RunsOut ((Walker.mk offset bytes).walk.fold step start).result) :
    StopsShort Taken Cut offset bytes := by
  generalize hwalk : (Walker.mk offset bytes).walk = walk at h
  obtain ⟨chunks, stop⟩ := walk
  rcases Walker.Walk.failsWith_fold_iff.mp h with
    ⟨front, chunk, back, state, rfl, hstate, hout⟩ | ⟨state, fault, hstate, rfl, hstatus⟩
  · -- a chunk is cut short
    obtain ⟨run, rest, hbytes, htiles, hpadded, hrest⟩ :=
      Walker.exists_run_of_walk hwalk (.inl (List.cons_ne_nil _ _))
    obtain ⟨after, hnext, -⟩ := Walker.next_of_walk_eq_cons hrest
    obtain ⟨name, payload, behind, hhead, hmax, rfl, -⟩ := Walker.next_eq_some_iff.mp hnext
    have hsized : ∀ chunk ∈ front, chunk.payload.length < 2 ^ 32 := fun _ => htiles.length_lt
    dsimp only at hbytes hhead
    rw [hbytes, hhead]
    exact .insidePayload name behind htiles hpadded ((htaken front hsized).mp ⟨state, hstate⟩)
      ((hcut front _ state hsized (Walker.length_lt_of_le_max hmax) hstate).mp hout)
  · -- all chunks are taken, and the range ends inside the next one
    rw [← List.append_nil chunks] at hwalk
    obtain ⟨run, rest, hbytes, htiles, hpadded, hrest⟩ :=
      Walker.exists_run_of_walk hwalk (.inr (Option.some_ne_none fault))
    have hends := Walker.runsOut_next_iff.mp
      ⟨fault, Walker.next_of_walk_eq_fault hrest, hstatus⟩
    obtain rfl : bytes = run ++ rest := hbytes
    exact .insideChunk htiles hpadded
      ((htaken chunks fun _ => htiles.length_lt).mp ⟨state, hstate⟩) hends

/-- **Where bytes are missing.** The chunks of a range, taken one after another, lack bytes exactly
if the range stops short. -/
theorem Walker.runsOut_fold_iff (hlt : bytes.length < 2 ^ 32) :
    RunsOut ((Walker.mk offset bytes).walk.fold step start).result ↔
      StopsShort Taken Cut offset bytes :=
  ⟨stopsShort_of_runsOut_fold htaken hcut, fun h => h.runsOut_fold htaken hcut hlt⟩

end Fold

end WebP
