import WebP.Proofs.Chunk.StopsShort
import WebP.Proofs.Outcome.Verdict

/-!
# A chunk put into a range

A chunk of a kind that is not known is put into a range of chunks, behind a run of whole ones. A
walk over the range finds the chunks of the run, the new chunk, and then what it found before,
further back. So if the step that takes the chunks maps its state over the new chunk, and commutes
with this map on the chunks behind, then the new range is taken as the old one, up to the map.

## Main definitions

* `WebP.UnknownChunk`: a chunk of a kind that is not known, with its padding.
* `WebP.Chunk.moved`, `WebP.Walker.moved`: further back in the file.

## Main results

* `WebP.Walker.isMoved_walk`: a walk over the same bytes further back in the file.
* `WebP.Walker.verdict_fold_insert`: a range with an unknown chunk in it.
* `WebP.Walker.verdict_fold_replace`: a range in which the payload of one chunk has grown.
-/

namespace WebP

open Outcome

/-! ### Chunks further back -/

/-- The chunk, `count` bytes further back in the file. -/
def Chunk.moved (count : Nat) (chunk : Chunk) : Chunk :=
  { chunk with offset := chunk.offset + count }

namespace Walker

/-- The walker over the same bytes, `count` bytes further back in the file. -/
def moved (count : Nat) (walker : Walker) : Walker :=
  { walker with offset := walker.offset + count }

theorem next_moved_of_some {walker after : Walker} {chunk : Chunk} (count : Nat)
    (h : walker.next = .ok (some (chunk, after))) :
    (walker.moved count).next = .ok (some (chunk.moved count, after.moved count)) := by
  obtain ⟨name, payload, back, hrest, hmax, rfl, rfl⟩ := next_eq_some_iff.mp h
  refine next_eq_some_iff.mpr ⟨name, payload, back, hrest, hmax, rfl, ?_⟩
  rw [moved, moved, mk.injEq]
  exact ⟨by dsimp only; omega, rfl⟩

/-- A fault is found for the same cause. Its note may tell another offset. -/
theorem next_moved_of_error {walker : Walker} {fault : Fault} (count : Nat)
    (h : walker.next = .error fault) :
    ∃ fault', (walker.moved count).next = .error fault' ∧ fault'.cause = fault.cause := by
  rcases next_eq_error_iff.mp h with ⟨hne, hshort, rfl⟩ | ⟨header, body, hrest, hlt, hcases⟩
  · exact ⟨_, next_eq_error_iff.mpr (.inl ⟨hne, hshort, rfl⟩), rfl⟩
  · rcases hcases with ⟨hmax, rfl⟩ | ⟨hmax, hbody, rfl⟩
    · exact ⟨_, next_eq_error_iff.mpr (.inr ⟨header, body, hrest, hlt, .inl ⟨hmax, rfl⟩⟩), rfl⟩
    · exact ⟨_, next_eq_error_iff.mpr
        (.inr ⟨header, body, hrest, hlt, .inr ⟨hmax, hbody, rfl⟩⟩), rfl⟩

/-- The second walk finds what the first one does, `count` bytes further back. -/
structure Walk.IsMoved (count : Nat) (first second : Walk) : Prop where
  chunks_eq : second.chunks = first.chunks.map (Chunk.moved count)
  cause_eq : second.fault.map Fault.cause = first.fault.map Fault.cause

/-- **The same bytes further back.** A walk over them finds the same chunks, and stops for the same
cause. -/
theorem isMoved_walk (count : Nat) (walker : Walker) :
    walker.walk.IsMoved count (walker.moved count).walk := by
  induction walker using walk.induct with
  | case1 walker fault h =>
    obtain ⟨fault', h', hcause⟩ := next_moved_of_error count h
    rw [walk_of_next_eq_error h, walk_of_next_eq_error h']
    exact ⟨rfl, congrArg some hcause⟩
  | case2 walker h =>
    have hrest : walker.rest = [] := next_eq_none_iff.mp h
    have h' : (walker.moved count).next = .ok none := next_eq_none_iff.mpr hrest
    rw [walk_of_next_eq_none h, walk_of_next_eq_none h']
    exact ⟨rfl, rfl⟩
  | case3 walker chunk after h ih =>
    rw [walk_of_next_eq_some h, walk_of_next_eq_some (next_moved_of_some count h)]
    exact ⟨congrArg (chunk.moved count :: ·) ih.chunks_eq, ih.cause_eq⟩

/-- A walk finds no chunk in front of the place where it begins. -/
theorem offset_le_of_mem_walk {walker : Walker} {chunk : Chunk}
    (h : chunk ∈ walker.walk.chunks) : walker.offset ≤ chunk.offset := by
  induction walker using walk.induct with
  | case1 walker fault hn =>
    rw [walk_of_next_eq_error hn] at h
    exact absurd h List.not_mem_nil
  | case2 walker hn =>
    rw [walk_of_next_eq_none hn] at h
    exact absurd h List.not_mem_nil
  | case3 walker first after hn ih =>
    rw [walk_of_next_eq_some hn] at h
    obtain ⟨name, payload, back, -, -, rfl, rfl⟩ := next_eq_some_iff.mp hn
    rcases List.mem_cons.mp h with rfl | h
    · exact Nat.le_refl _
    · have hlater := ih h
      dsimp only at hlater
      omega

/-- The chunks inside a chunk stand further back with it. -/
theorem children_moved (chunk : Chunk) (count headerLength : Nat) :
    (chunk.moved count).children headerLength = (chunk.children headerLength).moved count := by
  rw [Chunk.children, Chunk.children, moved, mk.injEq]
  simp only [Chunk.payloadSpan, Chunk.entry, ChunkEntry.payloadSpan, Chunk.moved, and_true]
  omega

variable {σ : Type} {step : σ → Chunk → Parsed σ} {move : σ → σ} {start : σ}

/-- The chunks that stand further back are taken as the others were, if the step that takes them
commutes with a map of the state. -/
theorem Walk.IsMoved.verdict_fold {first second : Walk} {count : Nat}
    (h : first.IsMoved count second)
    (hstep : ∀ state, ∀ chunk ∈ first.chunks,
      (step (move state) (chunk.moved count)).verdict = (step state chunk).verdict.map move)
    (state : σ) :
    (second.fold step (move state)).verdict = (first.fold step state).verdict.map move := by
  obtain ⟨chunks, fault⟩ := first
  obtain ⟨_, fault'⟩ := second
  obtain ⟨rfl, hcause⟩ := h
  refine verdict_bind_map (verdict_foldlM_map hstep state) fun last _ => ?_
  dsimp only at hcause ⊢
  cases fault with
  | none =>
    obtain rfl := Option.map_eq_none_iff.mp hcause
    rfl
  | some fault =>
    obtain ⟨fault', rfl, hsame⟩ := Option.map_eq_some_iff.mp hcause
    exact congrArg Except.error hsame

variable {offset : Nat} {run : Bytes} {front : List Chunk}

/-- A range is taken in two parts, the second behind a run of whole chunks. -/
theorem fold_walk_append {rest : Bytes} (tiles : Tiles offset run front)
    (padded : run.length % 2 = 0) (hlt : (run ++ rest).length < 2 ^ 32) :
    (Walker.mk offset (run ++ rest)).walk.fold step start =
      front.foldlM step start >>= (Walker.mk (offset + run.length) rest).walk.fold step := by
  rw [walk_append tiles padded hlt, Walk.fold, List.foldlM_append, bind_assoc]
  rfl

/-- What differs behind a run of whole chunks. -/
theorem verdict_fold_behind {rest rest' : Bytes} (tiles : Tiles offset run front)
    (padded : run.length % 2 = 0) (hlt : (run ++ rest).length < 2 ^ 32)
    (hlt' : (run ++ rest').length < 2 ^ 32)
    (h : ∀ state, (front.foldlM step start).result = .ok state →
      ((Walker.mk (offset + run.length) rest').walk.fold step state).verdict =
        ((Walker.mk (offset + run.length) rest).walk.fold step state).verdict.map move) :
    ((Walker.mk offset (run ++ rest')).walk.fold step start).verdict =
      ((Walker.mk offset (run ++ rest)).walk.fold step start).verdict.map move := by
  rw [fold_walk_append tiles padded hlt, fold_walk_append tiles padded hlt']
  exact verdict_bind_of_eq rfl h

end Walker

/-! ### Unknown chunks -/

/-- A chunk of a kind that is not known, with its padding. -/
structure UnknownChunk where
  name : FourCC
  payload : Bytes
  pad : Bytes
  isKnown_eq : (ChunkKind.ofFourCC name).isKnown = false
  length_pad : pad.length = payload.length % 2

namespace UnknownChunk

variable (unknown : UnknownChunk)

/-- The header, the payload and the padding. -/
def bytes : Bytes :=
  (ChunkHeader.mk unknown.name unknown.payload.length).encode ++ (unknown.payload ++ unknown.pad)

/-- The number of bytes of the chunk with its padding. -/
def size : Nat := 8 + unknown.payload.length + unknown.payload.length % 2

/-- The chunk, if its header stands at `offset`. -/
def chunkAt (offset : Nat) : Chunk := ⟨.unknown unknown.name, offset, unknown.payload⟩

theorem length_bytes : unknown.bytes.length = unknown.size := by
  simp only [bytes, size, List.length_append, ChunkHeader.length_encode, unknown.length_pad]
  omega

theorem size_even : unknown.size % 2 = 0 := by
  rw [size]
  omega

theorem ofFourCC_name : ChunkKind.ofFourCC unknown.name = .unknown unknown.name := by
  have hknown := unknown.isKnown_eq
  have hname := ChunkKind.name_ofFourCC unknown.name
  cases hkind : ChunkKind.ofFourCC unknown.name with
  | unknown name =>
    rw [hkind] at hname
    exact congrArg ChunkKind.unknown hname
  | _ =>
    rw [hkind] at hknown
    cases hknown

theorem next_bytes {offset : Nat} {rest : Bytes} (hlt : (unknown.bytes ++ rest).length < 2 ^ 32) :
    (Walker.mk offset (unknown.bytes ++ rest)).next =
      .ok (some (unknown.chunkAt offset, (Walker.mk offset rest).moved unknown.size)) := by
  have hpad := unknown.length_pad
  rw [List.length_append, unknown.length_bytes, size] at hlt
  have hmax : unknown.payload.length ≤ maxPayloadLength := by
    rw [maxPayloadLength]
    omega
  refine Walker.next_eq_some_iff.mpr
    ⟨unknown.name, unknown.payload, unknown.pad ++ rest, ?_, hmax, ?_, ?_⟩
  · simp only [bytes, List.append_assoc]
  · rw [unknown.ofFourCC_name]
    rfl
  · rw [Walker.moved, Walker.mk.injEq]
    refine ⟨?_, ?_⟩
    · dsimp only
      rw [List.length_append, size]
      omega
    · rw [← hpad, List.drop_left]

end UnknownChunk

namespace Walker

variable {σ : Type} {step : σ → Chunk → Parsed σ} {move : σ → σ} {start : σ} {offset : Nat}
  {run : Bytes} {front : List Chunk}

/-- **An unknown chunk in a range.** Taken by a step that maps its state over the chunk, and that
commutes with the map on the chunks behind, the range tells what it told before, up to the map. -/
theorem verdict_fold_insert (unknown : UnknownChunk) {rest : Bytes}
    (tiles : Tiles offset run front) (padded : run.length % 2 = 0)
    (hlt : (run ++ (unknown.bytes ++ rest)).length < 2 ^ 32)
    (hskip : ∀ state, (front.foldlM step start).result = .ok state →
      (step state (unknown.chunkAt (offset + run.length))).result = .ok (move state))
    (hstep : ∀ state chunk, offset + run.length ≤ chunk.offset →
      (step (move state) (chunk.moved unknown.size)).verdict =
        (step state chunk).verdict.map move) :
    ((Walker.mk offset (run ++ (unknown.bytes ++ rest))).walk.fold step start).verdict =
      ((Walker.mk offset (run ++ rest)).walk.fold step start).verdict.map move := by
  have hlonger := hlt
  rw [List.length_append, List.length_append] at hlonger
  refine verdict_fold_behind tiles padded (by rw [List.length_append]; omega) hlt
    fun state hstate => ?_
  rw [fold_walk_of_next (unknown.next_bytes (by rw [List.length_append]; omega)), verdict_bind,
    verdict_eq_ok_iff.mpr (hskip state hstate)]
  exact (isMoved_walk unknown.size _).verdict_fold
    (fun state chunk hc => hstep state chunk (offset_le_of_mem_walk hc)) state

/-- **A chunk that has grown.** Its payload is longer by an even number of bytes, and the step takes
the longer one as it took the shorter one, up to a map of the state with which it commutes on the
chunks behind. Then the range tells what it told before, up to the map. -/
theorem verdict_fold_replace {name : FourCC} {payload payload' back : Bytes} {count : Nat}
    (tiles : Tiles offset run front) (padded : run.length % 2 = 0) (even : count % 2 = 0)
    (hlength : payload'.length = payload.length + count)
    (hlt : (run ++ ((ChunkHeader.mk name payload'.length).encode ++
      (payload' ++ back))).length < 2 ^ 32)
    (hgrown : ∀ state, (front.foldlM step start).result = .ok state →
      (step state ⟨.ofFourCC name, offset + run.length, payload'⟩).verdict =
        (step state ⟨.ofFourCC name, offset + run.length, payload⟩).verdict.map move)
    (hstep : ∀ state chunk, offset + run.length + 8 + payload.length ≤ chunk.offset →
      (step (move state) (chunk.moved count)).verdict = (step state chunk).verdict.map move) :
    ((Walker.mk offset (run ++ ((ChunkHeader.mk name payload'.length).encode ++
        (payload' ++ back)))).walk.fold step start).verdict =
      ((Walker.mk offset (run ++ ((ChunkHeader.mk name payload.length).encode ++
        (payload ++ back)))).walk.fold step start).verdict.map move := by
  have hlonger := hlt
  simp only [List.length_append, ChunkHeader.length_encode] at hlonger
  have hmax : payload'.length ≤ maxPayloadLength := by
    rw [maxPayloadLength]
    omega
  have hparity : payload'.length % 2 = payload.length % 2 := by omega
  refine verdict_fold_behind tiles padded ?_ hlt fun state hstate => ?_
  · simp only [List.length_append, ChunkHeader.length_encode]
    omega
  · rw [fold_walk_of_next (next_encode _ name back hmax),
      fold_walk_of_next (next_encode _ name back (by omega)), hparity]
    refine verdict_bind_map (hgrown state hstate) fun next _ => ?_
    have hmoved := isMoved_walk count
      ⟨offset + run.length + 8 + payload.length + min (payload.length % 2) back.length,
        back.drop (payload.length % 2)⟩
    have hoffset : offset + run.length + 8 + payload'.length +
          min (payload.length % 2) back.length =
        offset + run.length + 8 + payload.length + min (payload.length % 2) back.length +
          count := by omega
    rw [hoffset]
    refine hmoved.verdict_fold (fun state chunk hc => ?_) next
    have hfar := offset_le_of_mem_walk hc
    dsimp only at hfar
    exact hstep state chunk (by omega)

end Walker

end WebP
