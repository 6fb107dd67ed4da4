import WebP.Proofs.Container.Steps

/-!
# The first fault decides

The chunks of a file are taken one after another, and the first one that cannot be read or is
refused ends the parse. What stands behind it is not looked at: a chunk is refused for what its
payload says and for what the chunks in front of it said, and a walker fails for what a header
says. So inputs that agree up to there, with their chunks in the same range, fail alike.

## Main definitions

* `WebP.Walker.StopsAt`: the chunk at which a run over a range stops, and the end of what was seen.
* `WebP.Walker.AgreesUpTo`: two walkers with the same bytes ahead up to an offset.

## Main results

* `WebP.Walker.fold_eq_error_iff`: a run fails exactly if it stops at some chunk.
* `WebP.Walker.StopsAt.congr`: it stops there whatever follows.
* `WebP.parse_eq_error_of_stopsAt`: two inputs that agree up to the first fault.
-/

namespace WebP

open Outcome

namespace Walker

variable {σ : Type} {step : σ → Chunk → Parsed σ} {state : σ} {walker after : Walker}
  {chunk : Chunk} {fault : Fault} {k seen : Nat}

/-! ### Where a run stops -/

/-- Of the chunks ahead of a walker, the first `k` are taken and the next one is the first fault.
What was seen of the bytes ends at `seen`. -/
inductive StopsAt (step : σ → Chunk → Parsed σ) :
    (k : Nat) → (walker : Walker) → (state : σ) → Fault → (seen : Nat) → Prop
  /-- The walker cannot read the chunk. Nothing behind the header was seen. -/
  | unreadable {walker : Walker} {state : σ} {fault : Fault}
      (next_eq : walker.next = .error fault) :
      StopsAt step 0 walker state fault (walker.offset + min 8 walker.rest.length)
  /-- The chunk is refused for its payload, or for a chunk inside it. -/
  | refused {walker after : Walker} {state : σ} {chunk : Chunk} {fault : Fault}
      (next_eq : walker.next = .ok (some (chunk, after)))
      (step_eq : (step state chunk).result = .error fault) :
      StopsAt step 0 walker state fault chunk.payloadSpan.stop
  | later {k : Nat} {walker after : Walker} {state next : σ} {chunk : Chunk} {fault : Fault}
      {seen : Nat} (next_eq : walker.next = .ok (some (chunk, after)))
      (step_eq : (step state chunk).result = .ok next)
      (behind : StopsAt step k after next fault seen) :
      StopsAt step (k + 1) walker state fault seen

theorem result_fold_of_next_eq_some (h : walker.next = .ok (some (chunk, after))) :
    (walker.walk.fold step state).result =
      (step state chunk).result >>= fun next => (after.walk.fold step next).result := by
  rw [fold_walk_of_next h, result_bind]

theorem StopsAt.result_fold (h : StopsAt step k walker state fault seen) :
    (walker.walk.fold step state).result = .error fault := by
  induction h with
  | unreadable next_eq =>
    rw [walk_of_next_eq_error next_eq]
    rfl
  | refused next_eq step_eq =>
    rw [result_fold_of_next_eq_some next_eq, step_eq]
    rfl
  | later next_eq step_eq behind ih =>
    rw [result_fold_of_next_eq_some next_eq, step_eq]
    exact ih

/-- A run over a range fails exactly if it stops at some chunk. -/
theorem fold_eq_error_iff :
    (walker.walk.fold step state).result = .error fault ↔
      ∃ k seen, StopsAt step k walker state fault seen := by
  refine ⟨fun h => ?_, fun ⟨k, seen, h⟩ => h.result_fold⟩
  induction walker using walk.induct generalizing state with
  | case1 walker found next_eq =>
    rw [walk_of_next_eq_error next_eq] at h
    obtain rfl : found = fault := Except.error.inj h
    exact ⟨0, _, .unreadable next_eq⟩
  | case2 walker next_eq =>
    rw [walk_of_next_eq_none next_eq] at h
    cases h
  | case3 walker chunk after next_eq ih =>
    rw [result_fold_of_next_eq_some next_eq] at h
    cases step_eq : (step state chunk).result with
    | error found =>
      rw [step_eq] at h
      obtain rfl : found = fault := Except.error.inj h
      exact ⟨0, _, .refused next_eq step_eq⟩
    | ok next =>
      rw [step_eq] at h
      obtain ⟨k, seen, behind⟩ := ih h
      exact ⟨k + 1, seen, .later next_eq step_eq behind⟩

/-! ### Walkers that agree -/

/-- Two walkers at one offset, with equally many bytes ahead, that have the same ones up to the
offset `seen`. -/
structure AgreesUpTo (seen : Nat) (walker other : Walker) : Prop where
  offset_eq : other.offset = walker.offset
  length_eq : other.rest.length = walker.rest.length
  take_eq : other.rest.take (seen - walker.offset) = walker.rest.take (seen - walker.offset)

namespace AgreesUpTo

variable {other : Walker}

/-- What one walker has ahead up to an offset that was seen, the other one has, too. -/
theorem exists_rest_eq (h : walker.AgreesUpTo seen other) {front back : Bytes}
    (hrest : walker.rest = front ++ back) (hle : walker.offset + front.length ≤ seen) :
    ∃ back' : Bytes, other.rest = front ++ back' ∧ back'.length = back.length ∧
      back'.take (seen - (walker.offset + front.length)) =
        back.take (seen - (walker.offset + front.length)) := by
  have hcount : seen - walker.offset = front.length + (seen - (walker.offset + front.length)) := by
    omega
  have htake := h.take_eq
  rw [hrest, hcount, List.take_length_add_append, List.take_add] at htake
  have hlength := h.length_eq
  rw [hrest, List.length_append] at hlength
  have hfront : (other.rest.take front.length).length = front.length := by
    rw [List.length_take]
    omega
  obtain ⟨hsame, hback⟩ := List.append_inj htake hfront
  refine ⟨other.rest.drop front.length, ?_, ?_, hback⟩
  · rw [← hsame, hfront, List.take_append_drop]
  · rw [List.length_drop]
    omega

/-- A walker that fails has not looked behind the header. -/
theorem next_eq_error (h : walker.AgreesUpTo seen other) (hn : walker.next = .error fault)
    (hseen : walker.offset + min 8 walker.rest.length ≤ seen) : other.next = .error fault := by
  rcases next_eq_error_iff.mp hn with ⟨hne, hshort, rfl⟩ | ⟨header, body, hrest, hlt, hcases⟩
  · refine next_eq_error_iff.mpr (.inl ⟨?_, ?_, rfl⟩)
    · rwa [← List.length_pos_iff, h.length_eq, List.length_pos_iff]
    · rwa [h.length_eq]
  · have hlength := ChunkHeader.length_encode header
    rw [hrest, List.length_append] at hseen
    obtain ⟨body', hrest', hlength', -⟩ := h.exists_rest_eq hrest (by omega)
    refine next_eq_error_iff.mpr (.inr ⟨header, body', hrest', hlt, ?_⟩)
    rwa [hlength', h.offset_eq]

/-- A walker that finds a chunk has not looked behind the payload. -/
theorem next_eq_some (h : walker.AgreesUpTo seen other)
    (hn : walker.next = .ok (some (chunk, after))) (hseen : chunk.payloadSpan.stop ≤ seen) :
    ∃ after', other.next = .ok (some (chunk, after')) ∧ after.AgreesUpTo seen after' := by
  obtain ⟨name, payload, back, hrest, hmax, rfl, rfl⟩ := next_eq_some_iff.mp hn
  have hstop : walker.offset + 8 + payload.length ≤ seen := hseen
  have hlength : ((ChunkHeader.mk name payload.length).encode ++ payload).length =
      8 + payload.length := by
    rw [List.length_append, ChunkHeader.length_encode]
  rw [← List.append_assoc] at hrest
  obtain ⟨back', hrest', hlength', htake⟩ := h.exists_rest_eq hrest (by omega)
  rw [List.append_assoc] at hrest'
  rw [hlength] at htake
  refine ⟨_, next_eq_some_iff.mpr ⟨name, payload, back', hrest', hmax, ?_, rfl⟩, ?_⟩
  · rw [h.offset_eq]
  · refine ⟨?_, ?_, ?_⟩
    · dsimp only
      rw [h.offset_eq, hlength']
    · dsimp only
      rw [List.length_drop, List.length_drop, hlength']
    · dsimp only
      by_cases hpad : payload.length % 2 ≤ back.length
      · have hdrop := congrArg (List.drop (payload.length % 2)) htake
        rw [List.drop_take, List.drop_take] at hdrop
        rwa [Nat.min_eq_left hpad, Nat.add_assoc walker.offset, ← Nat.sub_sub]
      · -- the padding is missing, so both walkers are at the end of their ranges
        rw [List.drop_of_length_le (by omega), List.drop_of_length_le (by omega)]

end AgreesUpTo

/-- A chunk lies between the offsets of the walker in front of it and behind it. -/
theorem payloadSpan_stop_of_next (h : walker.next = .ok (some (chunk, after))) :
    walker.offset ≤ chunk.payloadSpan.stop ∧ chunk.payloadSpan.stop ≤ after.offset := by
  obtain ⟨name, payload, back, -, -, rfl, rfl⟩ := next_eq_some_iff.mp h
  have hstop : (Chunk.mk (.ofFourCC name) walker.offset payload).payloadSpan.stop =
      walker.offset + 8 + payload.length := rfl
  rw [hstop]
  dsimp only
  omega

/-- What was seen reaches behind the chunks that were taken. -/
theorem StopsAt.offset_le (h : StopsAt step k walker state fault seen) : walker.offset ≤ seen := by
  induction h with
  | unreadable next_eq => exact Nat.le_add_right _ _
  | refused next_eq step_eq => exact (payloadSpan_stop_of_next next_eq).1
  | later next_eq step_eq behind ih =>
    have hstop := payloadSpan_stop_of_next next_eq
    omega

/-- **The first fault decides.** A run stops where it does whatever stands behind what was seen. -/
theorem StopsAt.congr (h : StopsAt step k walker state fault seen) {other : Walker}
    (hagrees : walker.AgreesUpTo seen other) : StopsAt step k other state fault seen := by
  -- behind each chunk that is taken the walkers agree again
  induction h generalizing other with
  | @unreadable walker state fault next_eq =>
    have hother := hagrees.next_eq_error next_eq (Nat.le_refl _)
    rw [← hagrees.offset_eq, ← hagrees.length_eq]
    exact .unreadable hother
  | refused next_eq step_eq =>
    obtain ⟨after', hother, -⟩ := hagrees.next_eq_some next_eq (Nat.le_refl _)
    exact .refused hother step_eq
  | @later k walker after state next chunk fault seen next_eq step_eq behind ih =>
    have hseen : chunk.payloadSpan.stop ≤ seen :=
      Nat.le_trans (payloadSpan_stop_of_next next_eq).2 behind.offset_le
    obtain ⟨after', hother, hbehind⟩ := hagrees.next_eq_some next_eq hseen
    exact .later hother step_eq (ih hbehind)

theorem agreesUpTo_over {data other : Bytes} {span : Span} (hstop : span.stop ≤ data.length)
    (hstop' : span.stop ≤ other.length) (htake : data.take seen = other.take seen) :
    (Walker.over data span).AgreesUpTo seen (Walker.over other span) := by
  simp only [Walker.over, Nat.min_eq_left hstop, Nat.min_eq_left hstop']
  refine ⟨rfl, ?_, ?_⟩
  · rw [Bytes.length_slice_of_le hstop, Bytes.length_slice_of_le hstop']
  · rw [← Bytes.slice_take, ← Bytes.slice_take, htake]

end Walker

/-! ### A whole input -/

variable {config : Config} {data other : Bytes} {span : Span} {fault : Fault} {k seen : Nat}

/-- A parse fails with the first fault among the chunks. -/
theorem result_parse_of_stopsAt (hspan : (chunkSpan data).result = .ok span)
    (hstops : (Walker.over data span).StopsAt (Assembly.add config) k {} fault seen) :
    (parse config data).result = .error fault := by
  rw [result_parse, FileHeader.read, result_bind, hspan]
  change Outcome.result (_ >>= _) = _
  rw [result_bind, hstops.result_fold]
  rfl

/-- **The first bad chunk decides.** Of two inputs that hold their chunks in the same range, one is
refused for its chunk at some place. If the other one is the same up to the end of the header of
that chunk, or of its payload if that is refused, it is refused for the same fault. -/
theorem parse_eq_error_of_stopsAt (hdata : (chunkSpan data).result = .ok span)
    (hother : (chunkSpan other).result = .ok span)
    (hstops : (Walker.over data span).StopsAt (Assembly.add config) k {} fault seen)
    (hagree : data.take seen = other.take seen) :
    (parse config data).result = .error fault ∧ (parse config other).result = .error fault := by
  obtain ⟨hframed, rfl⟩ := chunkSpan_eq_ok_iff.mp hdata
  obtain ⟨hframed', hsame⟩ := chunkSpan_eq_ok_iff.mp hother
  have hstop : data.declaredLength + 8 ≤ other.length := by
    have hstop' := congrArg Span.stop hsame
    dsimp only at hstop'
    exact hstop' ▸ hframed'.complete
  have hstops' := hstops.congr (Walker.agreesUpTo_over hframed.complete hstop hagree)
  exact ⟨result_parse_of_stopsAt hdata hstops, result_parse_of_stopsAt hother hstops'⟩

/-- The start of a file with an animation header behind an unknown chunk. -/
def unexpectedAnimation : Bytes :=
  FourCC.riff.bytes ++ [28, 0, 0, 0] ++ FourCC.webp.bytes ++ [97, 98, 99, 100, 0, 0, 0, 0] ++
    FourCC.anim.bytes ++ [0, 0, 0, 0]

/-- The animation header is refused, whether the next chunk is cut off or an extended header. -/
theorem parse_eq_error_of_unexpectedAnimation :
    (parse {} (unexpectedAnimation ++ [1, 2, 3, 4, 5, 6, 7, 8])).result =
        .error ⟨.invalidChunkLayout, [.expectedChunk .vp8x]⟩ ∧
      (parse {} (unexpectedAnimation ++ FourCC.vp8x.bytes ++ [0, 0, 0, 0, 9])).result =
        .error ⟨.invalidChunkLayout, [.expectedChunk .vp8x]⟩ :=
  @parse_eq_error_of_stopsAt _ _ _ ⟨12, 36⟩ _ 1 28 rfl rfl
    (.later rfl rfl (@Walker.StopsAt.refused _ _ _ _ _ ⟨.animation, 20, []⟩ _ rfl rfl)) rfl

end WebP
