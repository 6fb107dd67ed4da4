import Mathlib.Tactic.SplitIfs
import WebP.Chunk.Walker
import WebP.Proofs.Chunk.Encoding

/-!
# Runs of chunks

A byte string is a run of chunks if it can be cut into chunks, each written as a header, a
payload and, behind a payload of odd length, one byte of padding of any value. Only the last
padding byte may be missing. The relation does not mention a walker; a walker reaches the end of
its range without a fault exactly if the range is a run of chunks, and then finds these chunks.

## Main definitions

* `WebP.Tiles`: a byte string that begins at an offset is the run of given chunks.
* `WebP.Fill`: the entries of chunks that fill a range.

## Main results

* `WebP.Walker.next_eq_some_iff`, `WebP.Walker.next_eq_error_iff`: what one step of a walker finds,
  and where there is none.
* `WebP.Walker.walk_eq_iff_tiles`: the walk over a range finds the chunks of which it is the run.
* `WebP.Tiles.slice_payloadSpan`: the payload of each chunk stands where its span says.
* `WebP.Tiles.fill`: the entries of a run of chunks.
-/

namespace WebP

/-- The bytes that begin at `offset` are the run of `chunks`. -/
inductive Tiles : (offset : Nat) → Bytes → List Chunk → Prop
  | nil (offset : Nat) : Tiles offset [] []
  /-- A chunk with its padding, and a run behind it. -/
  | cons {offset : Nat} {chunks : List Chunk} (name : FourCC) (payload pad rest : Bytes)
      (length_lt : payload.length < 2 ^ 32) (length_pad : pad.length = payload.length % 2)
      (tail : Tiles (offset + 8 + payload.length + pad.length) rest chunks) :
      Tiles offset ((ChunkHeader.mk name payload.length).encode ++ (payload ++ (pad ++ rest)))
        (⟨.ofFourCC name, offset, payload⟩ :: chunks)
  /-- A last chunk without the padding that its odd length asks for. -/
  | unpadded {offset : Nat} (name : FourCC) (payload : Bytes)
      (length_lt : payload.length < 2 ^ 32) (length_odd : payload.length % 2 = 1) :
      Tiles offset ((ChunkHeader.mk name payload.length).encode ++ payload)
        [⟨.ofFourCC name, offset, payload⟩]

/-- The entries stand one behind the other from `offset` up to `stop`, each behind the padding of
the one before it. Only the last padding may be missing. -/
inductive Fill : (offset stop : Nat) → List ChunkEntry → Prop
  | nil (stop : Nat) : Fill stop stop []
  | cons {stop : Nat} {entries : List ChunkEntry} (entry : ChunkEntry)
      (behind : Fill (entry.payloadSpan.stop + entry.length % 2) stop entries) :
      Fill entry.offset stop (entry :: entries)
  | unpadded (entry : ChunkEntry) : Fill entry.offset entry.payloadSpan.stop [entry]

theorem ChunkHeader.encode_append_ne_nil (header : ChunkHeader) (back : Bytes) :
    header.encode ++ back ≠ [] := by
  intro h
  have hl := congrArg List.length h
  rw [List.length_append, ChunkHeader.length_encode, List.length_nil] at hl
  omega

namespace Tiles

/-- The run at the end of a range is empty. -/
theorem eq_nil_of_nil {offset : Nat} {chunks : List Chunk} (h : Tiles offset [] chunks) :
    chunks = [] := by
  generalize hb : ([] : Bytes) = bytes at h
  cases h with
  | nil => rfl
  | cons name payload pad rest => exact absurd hb.symm (ChunkHeader.encode_append_ne_nil _ _)
  | unpadded name payload => exact absurd hb.symm (ChunkHeader.encode_append_ne_nil _ _)

/-- A chunk stands in front of a run that begins behind its padding, or at the end of the range
if the padding is not there. -/
theorem cons_drop {offset : Nat} {name : FourCC} {payload back : Bytes} {chunks : List Chunk}
    (h : Tiles (offset + 8 + payload.length + min (payload.length % 2) back.length)
      (back.drop (payload.length % 2)) chunks) (hlt : payload.length < 2 ^ 32) :
    Tiles offset ((ChunkHeader.mk name payload.length).encode ++ (payload ++ back))
      (⟨.ofFourCC name, offset, payload⟩ :: chunks) := by
  by_cases hpad : payload.length % 2 ≤ back.length
  · have hcut : back = back.take (payload.length % 2) ++ back.drop (payload.length % 2) :=
      (List.take_append_drop _ _).symm
    have hlen : (back.take (payload.length % 2)).length = payload.length % 2 := by
      rw [List.length_take]
      omega
    rw [Nat.min_eq_left hpad] at h
    rw [hcut]
    exact .cons name payload _ _ hlt hlen (by rwa [hlen])
  · -- the padding is missing, so nothing follows the payload
    have hback : back = [] := List.eq_nil_of_length_eq_zero (by omega)
    subst hback
    rw [List.drop_nil] at h
    rw [h.eq_nil_of_nil, List.append_nil]
    exact .unpadded name payload hlt (by rw [List.length_nil] at hpad; omega)

variable {offset : Nat} {bytes : Bytes} {chunks : List Chunk}

/-- The length of a payload fits into the header of its chunk. -/
theorem length_lt (h : Tiles offset bytes chunks) {chunk : Chunk} (hc : chunk ∈ chunks) :
    chunk.payload.length < 2 ^ 32 := by
  induction h with
  | nil => exact absurd hc List.not_mem_nil
  | cons name payload pad rest length_lt length_pad tail ih =>
    rcases List.mem_cons.mp hc with rfl | hc
    · exact length_lt
    · exact ih hc
  | unpadded name payload length_lt =>
    obtain rfl := List.mem_singleton.mp hc
    exact length_lt

/-- A run of chunks is cut in two parts at the payload of each of its chunks. -/
theorem exists_payload (h : Tiles offset bytes chunks) {chunk : Chunk} (hc : chunk ∈ chunks) :
    ∃ front back : Bytes, bytes = front ++ (chunk.payload ++ back) ∧ 8 ≤ front.length ∧
      chunk.offset + 8 = offset + front.length := by
  induction h with
  | nil => simp at hc
  | cons name payload pad rest length_lt length_pad tail ih =>
    rcases List.mem_cons.mp hc with rfl | hc
    · exact ⟨_, pad ++ rest, rfl, by simp, by simp⟩
    · obtain ⟨front, back, hrest, hfront, hoff⟩ := ih hc
      refine ⟨(ChunkHeader.mk name payload.length).encode ++ (payload ++ (pad ++ front)), back,
        by simp [hrest], by simp, ?_⟩
      simp only [List.length_append, ChunkHeader.length_encode]
      omega
  | unpadded name payload =>
    obtain rfl := List.mem_singleton.mp hc
    exact ⟨_, [], by rw [List.append_nil], by simp, by simp⟩

/-- The payload of a chunk lies inside the run, behind a chunk header. -/
theorem payloadSpan_within (h : Tiles offset bytes chunks) {chunk : Chunk} (hc : chunk ∈ chunks) :
    offset + 8 ≤ chunk.payloadSpan.start ∧ chunk.payloadSpan.stop ≤ offset + bytes.length := by
  obtain ⟨front, back, rfl, hfront, hoff⟩ := h.exists_payload hc
  simp only [Chunk.payloadSpan, Chunk.entry, ChunkEntry.payloadSpan, ChunkHeader.encodedLength,
    List.length_append]
  omega

/-- The payload of a chunk stands in the file where its span says. -/
theorem slice_payloadSpan {data : Bytes} (h : Tiles offset bytes chunks)
    (hdata : ∃ back, data.drop offset = bytes ++ back) (hoff : offset ≤ data.length)
    {chunk : Chunk} (hc : chunk ∈ chunks) : data.slice chunk.payloadSpan = chunk.payload := by
  obtain ⟨front, back, rfl, hfront, hpos⟩ := h.exists_payload hc
  obtain ⟨more, hmore⟩ := hdata
  have hcut : data = (data.take offset ++ front) ++ (chunk.payload ++ (back ++ more)) :=
    calc data = data.take offset ++ data.drop offset := (List.take_append_drop offset data).symm
      _ = (data.take offset ++ front) ++ (chunk.payload ++ (back ++ more)) := by
        rw [hmore]
        simp only [List.append_assoc]
  have hlen : (data.take offset ++ front).length = chunk.offset + 8 := by
    rw [List.length_append, List.length_take, Nat.min_eq_left hoff]
    omega
  have hslice := Bytes.slice_of_append (data.take offset ++ front) chunk.payload (back ++ more)
  rw [← hcut, hlen] at hslice
  exact hslice

/-- The entries of a run of chunks fill its range. -/
theorem fill (h : Tiles offset bytes chunks) :
    Fill offset (offset + bytes.length) (chunks.map Chunk.entry) := by
  induction h with
  | nil offset => exact .nil offset
  | @cons offset chunks name payload pad rest length_lt length_pad tail ih =>
    have hstop : offset + 8 + payload.length + pad.length + rest.length = offset +
        ((ChunkHeader.mk name payload.length).encode ++ (payload ++ (pad ++ rest))).length := by
      simp only [List.length_append, ChunkHeader.length_encode]
      omega
    rw [hstop, length_pad] at ih
    exact .cons (Chunk.entry ⟨.ofFourCC name, offset, payload⟩) ih
  | @unpadded offset name payload length_lt length_odd =>
    have hstop : offset + 8 + payload.length =
        offset + ((ChunkHeader.mk name payload.length).encode ++ payload).length := by
      rw [List.length_append, ChunkHeader.length_encode, Nat.add_assoc]
    rw [← hstop]
    exact .unpadded (Chunk.entry ⟨.ofFourCC name, offset, payload⟩)

end Tiles

namespace Walker

/-- A walker stands at the end of its range exactly if no byte is ahead. -/
theorem next_eq_none_iff {walker : Walker} : walker.next = .ok none ↔ walker.rest = [] := by
  unfold next
  split
  · simp only [*]
  · split
    · simp only [*, reduceCtorEq]
    · dsimp only
      split_ifs <;> simp only [*, reduceCtorEq, Except.ok.injEq]

/-- A length that may be declared has 32 bits. -/
theorem length_lt_of_le_max {payload : Bytes} (h : payload.length ≤ maxPayloadLength) :
    payload.length < 2 ^ 32 := by
  rw [maxPayloadLength] at h
  omega

/-- The step over a chunk that was written. The padding is dropped as far as it is there. -/
theorem next_encode (offset : Nat) (name : FourCC) {payload : Bytes} (back : Bytes)
    (hmax : payload.length ≤ maxPayloadLength) :
    (Walker.mk offset
        ((ChunkHeader.mk name payload.length).encode ++ (payload ++ back))).next =
      .ok (some (⟨.ofFourCC name, offset, payload⟩,
        ⟨offset + 8 + payload.length + min (payload.length % 2) back.length,
          back.drop (payload.length % 2)⟩)) := by
  have hs : ChunkHeader.split? ((ChunkHeader.mk name payload.length).encode ++ (payload ++ back)) =
      some (⟨name, payload.length⟩, payload ++ back) :=
    ChunkHeader.split?_eq_some_iff.mpr ⟨rfl, length_lt_of_le_max hmax⟩
  unfold next
  rw [if_neg (ChunkHeader.encode_append_ne_nil _ _), hs]
  dsimp only
  rw [if_neg (Nat.not_lt.mpr hmax), if_neg (by rw [List.length_append]; omega),
    List.take_left, List.length_append, ChunkHeader.paddedLength, ChunkHeader.encodedLength]
  dsimp only
  rw [List.drop_append, List.drop_of_length_le (Nat.le_add_right _ _), List.nil_append,
    Nat.add_sub_cancel_left]
  congr 4
  omega

/-- **One step.** A walker finds a chunk exactly if the header and the payload of the chunk stand
ahead of it and the length is not too large. The walker behind the chunk has dropped the padding,
as far as it is there. -/
theorem next_eq_some_iff {walker after : Walker} {chunk : Chunk} :
    walker.next = .ok (some (chunk, after)) ↔
      ∃ (name : FourCC) (payload back : Bytes),
        walker.rest = (ChunkHeader.mk name payload.length).encode ++ (payload ++ back) ∧
        payload.length ≤ maxPayloadLength ∧
        chunk = ⟨.ofFourCC name, walker.offset, payload⟩ ∧
        after = ⟨walker.offset + 8 + payload.length + min (payload.length % 2) back.length,
          back.drop (payload.length % 2)⟩ := by
  constructor
  · intro h
    unfold next at h
    split at h
    · cases h
    · split at h
      · cases h
      · rename_i header body hs
        obtain ⟨hrest, hlt⟩ := ChunkHeader.split?_eq_some_iff.mp hs
        dsimp only at h
        split_ifs at h with hmax hbody
        have htake : (body.take header.length).length = header.length := by
          rw [List.length_take]
          omega
        obtain ⟨rfl, rfl⟩ := Prod.mk.inj (Option.some.inj (Except.ok.inj h))
        refine ⟨header.name, body.take header.length, body.drop header.length, ?_, ?_, rfl, ?_⟩
        · rw [htake, List.take_append_drop, hrest]
        · rw [htake]
          omega
        · rw [htake, List.drop_drop, List.length_drop, ChunkHeader.paddedLength,
            ChunkHeader.encodedLength]
          congr 1
          omega
  · rintro ⟨name, payload, back, hrest, hmax, rfl, rfl⟩
    obtain ⟨offset, rest⟩ := walker
    obtain rfl : rest = _ := hrest
    exact next_encode offset name back hmax

/-- **No step.** A walker stops in front of bytes that are too few for a header, and in front of a
header that declares too large a length or more bytes than there are. -/
theorem next_eq_error_iff {walker : Walker} {fault : Fault} :
    walker.next = .error fault ↔
      (walker.rest ≠ [] ∧ walker.rest.length < 8 ∧ fault = ⟨.truncatedChunk, []⟩) ∨
      ∃ (header : ChunkHeader) (body : Bytes),
        walker.rest = header.encode ++ body ∧ header.length < 2 ^ 32 ∧
        (maxPayloadLength < header.length ∧ fault =
            ⟨.invalidParam, [.payloadTooLarge header.length, .readingChunk header.name]⟩ ∨
          header.length ≤ maxPayloadLength ∧ body.length < header.length ∧ fault =
            ⟨.truncatedChunk, [.payloadOutOfBounds header.length (walker.offset + 8) body.length,
              .readingChunk header.name]⟩) := by
  constructor
  · intro h
    unfold next at h
    split at h
    · cases h
    · rename_i hne
      split at h
      · rename_i hs
        cases h
        exact .inl ⟨hne, ChunkHeader.split?_eq_none_iff.mp hs, rfl⟩
      · rename_i header body hs
        obtain ⟨hrest, hlt⟩ := ChunkHeader.split?_eq_some_iff.mp hs
        refine .inr ⟨header, body, hrest, hlt, ?_⟩
        dsimp only at h
        split_ifs at h with hmax hbody
        · exact .inl ⟨hmax, (Except.error.inj h).symm⟩
        · exact .inr ⟨Nat.not_lt.mp hmax, hbody, (Except.error.inj h).symm⟩
  · rintro (⟨hne, hshort, rfl⟩ | ⟨header, body, hrest, hlt, hcases⟩)
    · have hs : ChunkHeader.split? walker.rest = none :=
        ChunkHeader.split?_eq_none_iff.mpr hshort
      rw [next, if_neg hne, hs]
    · have hs := ChunkHeader.split?_eq_some_iff.mpr ⟨hrest, hlt⟩
      have hne : walker.rest ≠ [] := hrest ▸ ChunkHeader.encode_append_ne_nil header body
      rw [next, if_neg hne, hs]
      dsimp only
      rcases hcases with ⟨hmax, rfl⟩ | ⟨hmax, hbody, rfl⟩
      · rw [if_pos hmax]
      · rw [if_neg (Nat.not_lt.mpr hmax), if_pos hbody]
        rfl

theorem walk_of_next_eq_error {walker : Walker} {fault : Fault} (h : walker.next = .error fault) :
    walker.walk = ⟨[], some fault⟩ := by
  unfold walk
  split <;> simp_all

theorem walk_of_next_eq_none {walker : Walker} (h : walker.next = .ok none) :
    walker.walk = ⟨[], none⟩ := by
  unfold walk
  split <;> simp_all

theorem walk_of_next_eq_some {walker after : Walker} {chunk : Chunk}
    (h : walker.next = .ok (some (chunk, after))) :
    walker.walk = ⟨chunk :: after.walk.chunks, after.walk.fault⟩ := by
  rw [walk]
  split <;> simp_all

/-- The first chunk of a range is taken before the others. -/
theorem fold_walk_of_next {σ : Type} {step : σ → Chunk → Parsed σ} {start : σ}
    {walker after : Walker} {chunk : Chunk} (h : walker.next = .ok (some (chunk, after))) :
    walker.walk.fold step start = step start chunk >>= after.walk.fold step := by
  rw [walk_of_next_eq_some h, Walk.fold, List.foldlM_cons, bind_assoc]
  rfl

/-- The walk from the end of a range finds nothing. -/
theorem walk_nil (offset : Nat) : (Walker.mk offset []).walk = ⟨[], none⟩ :=
  walk_of_next_eq_none (next_eq_none_iff.mpr rfl)

/-- A walk over a run of chunks finds them, however long the run is. -/
theorem walk_of_tiles_of_le {offset : Nat} {bytes : Bytes} {chunks : List Chunk}
    (h : Tiles offset bytes chunks)
    (hmax : ∀ chunk ∈ chunks, chunk.payload.length ≤ maxPayloadLength) :
    (Walker.mk offset bytes).walk = ⟨chunks, none⟩ := by
  induction h with
  | nil offset => exact walk_nil offset
  | @cons offset chunks name payload pad rest length_lt length_pad tail ih =>
    obtain ⟨hfirst, hrest⟩ := List.forall_mem_cons.mp hmax
    have hmin : min (payload.length % 2) (pad ++ rest).length = pad.length := by
      rw [List.length_append]
      omega
    have hdrop : (pad ++ rest).drop (payload.length % 2) = rest := by
      rw [← length_pad, List.drop_left]
    have hstep := next_encode offset name (pad ++ rest) hfirst
    rw [hmin, hdrop] at hstep
    rw [walk_of_next_eq_some hstep, ih hrest]
  | @unpadded offset name payload length_lt length_odd =>
    have hstep := next_encode offset name [] (hmax _ (List.mem_singleton_self _))
    rw [List.append_nil] at hstep
    rw [walk_of_next_eq_some hstep, List.drop_nil, walk_nil]

/-- A walk over a run of chunks finds them. -/
theorem walk_of_tiles {offset : Nat} {bytes : Bytes} {chunks : List Chunk}
    (h : Tiles offset bytes chunks) (hlt : bytes.length < 2 ^ 32) :
    (Walker.mk offset bytes).walk = ⟨chunks, none⟩ := by
  refine walk_of_tiles_of_le h fun chunk hc => ?_
  have hstop : chunk.offset + 8 + chunk.payload.length ≤ offset + bytes.length :=
    (h.payloadSpan_within hc).2
  have hstart : offset + 8 ≤ chunk.offset + 8 := (h.payloadSpan_within hc).1
  rw [maxPayloadLength]
  omega

/-- A walk without a fault found a run of chunks. -/
theorem tiles_of_walk {walker : Walker} {chunks : List Chunk}
    (h : walker.walk = ⟨chunks, none⟩) : Tiles walker.offset walker.rest chunks := by
  induction chunks generalizing walker with
  | nil =>
    cases hn : walker.next with
    | error fault =>
      rw [walk_of_next_eq_error hn] at h
      cases h
    | ok found =>
      cases found with
      | none =>
        rw [next_eq_none_iff.mp hn]
        exact .nil _
      | some step =>
        rw [walk_of_next_eq_some hn] at h
        cases h
  | cons chunk chunks ih =>
    cases hn : walker.next with
    | error fault =>
      rw [walk_of_next_eq_error hn] at h
      cases h
    | ok found =>
      cases found with
      | none =>
        rw [walk_of_next_eq_none hn] at h
        cases h
      | some step =>
        obtain ⟨found, after⟩ := step
        rw [walk_of_next_eq_some hn, Walk.mk.injEq, List.cons.injEq] at h
        obtain ⟨⟨rfl, hchunks⟩, hfault⟩ := h
        have htail : Tiles after.offset after.rest chunks :=
          ih (by rw [← hchunks, ← hfault])
        obtain ⟨name, payload, back, hrest, hmax, rfl, rfl⟩ := next_eq_some_iff.mp hn
        rw [hrest]
        exact htail.cons_drop (length_lt_of_le_max hmax)

/-- **Walks and runs.** The walk over a range reaches its end exactly if the range is a run of
chunks, and then it finds these chunks. -/
theorem walk_eq_iff_tiles {offset : Nat} {bytes : Bytes} {chunks : List Chunk}
    (hlt : bytes.length < 2 ^ 32) :
    (Walker.mk offset bytes).walk = ⟨chunks, none⟩ ↔ Tiles offset bytes chunks :=
  ⟨tiles_of_walk, fun h => walk_of_tiles h hlt⟩

end Walker


end WebP
