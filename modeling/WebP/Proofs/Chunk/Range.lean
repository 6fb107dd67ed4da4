import WebP.Proofs.Chunk.Calls

/-!
# A walker over a range of arbitrary bytes

The lengths in a file may be anything, and so may the range that a walker is sent over. Each call
meets a whole chunk inside the range, or the end of the range, or a chunk that breaks off, and which
of them it is can be told from the bytes at the offset where the walker stands. A chunk moves the
walker by eight bytes at least and never past the end of the range. Without one it does not move,
and then all later calls are answered alike.

## Main definitions

* `WebP.Bytes.clamp`: the part of a span that is there.
* `WebP.Bytes.HasChunk`, `WebP.Bytes.BreaksOff`: what a walker meets at an offset.
* `WebP.Walker.StandsIn`: a walker inside a range of a file.
* `WebP.Walker.KeepsToRange`: what is true of all calls of a walker over a range.

## Main results

* `WebP.Walker.StandsIn.next_eq_some_iff`, `WebP.Walker.StandsIn.next_eq_error_iff`: one step.
* `WebP.Walker.StandsIn.afterCalls`: any number of calls.
* `WebP.Walker.children_eq_over`: the walker over the chunks inside a chunk.
* `WebP.Walker.keepsToRange_over`: all calls of a walker over any range of any file.
-/

namespace WebP

/-! ### What stands at an offset -/

namespace Bytes

/-- The part of a span that lies inside the byte string. It is empty if the span is reversed. -/
def clamp (data : Bytes) (span : Span) : Span :=
  ⟨min span.start (min span.stop data.length), min span.stop data.length⟩

/-- A whole chunk stands at an offset of a range that ends at `stop`. -/
structure HasChunk (data : Bytes) (stop offset : Nat) (chunk : Chunk) : Prop where
  offset_eq : chunk.offset = offset
  kind_eq : chunk.kind = .ofFourCC chunk.kind.name
  name_eq : data.slice ⟨offset, offset + 4⟩ = chunk.kind.name.bytes
  length_eq : data.lengthAt offset = chunk.payload.length
  payload_eq : data.slice chunk.payloadSpan = chunk.payload
  length_le : chunk.payload.length ≤ maxPayloadLength
  stop_le : chunk.payloadSpan.stop ≤ stop

/-- The bytes at an offset of a range that ends at `stop` are no whole chunk. -/
inductive BreaksOff (data : Bytes) (stop offset : Nat) : Fault → Prop
  /-- There are bytes, but too few for a header. -/
  | insideHeader (more : offset < stop) (short : stop < offset + 8) :
      BreaksOff data stop offset ⟨.truncatedChunk, []⟩
  | tooLarge {name : FourCC} (whole : offset + 8 ≤ stop)
      (name_eq : data.slice ⟨offset, offset + 4⟩ = name.bytes)
      (large : maxPayloadLength < data.lengthAt offset) :
      BreaksOff data stop offset
        ⟨.invalidParam, [.payloadTooLarge (data.lengthAt offset), .readingChunk name]⟩
  /-- The length may be declared, but there are fewer bytes. -/
  | insidePayload {name : FourCC} (whole : offset + 8 ≤ stop)
      (name_eq : data.slice ⟨offset, offset + 4⟩ = name.bytes)
      (length_le : data.lengthAt offset ≤ maxPayloadLength)
      (short : stop - (offset + 8) < data.lengthAt offset) :
      BreaksOff data stop offset ⟨.truncatedChunk,
        [.payloadOutOfBounds (data.lengthAt offset) (offset + 8) (stop - (offset + 8)),
          .readingChunk name]⟩

end Bytes

/-! ### One step -/

namespace Walker

/-- The walker stands inside a range of a file, with the rest of the range ahead. -/
structure StandsIn (data : Bytes) (range : Span) (walker : Walker) : Prop where
  stop_le : range.stop ≤ data.length
  start_le : range.start ≤ walker.offset
  offset_le : walker.offset ≤ range.stop
  rest_eq : walker.rest = data.slice ⟨walker.offset, range.stop⟩

theorem standsIn_over (data : Bytes) (span : Span) :
    (Walker.over data span).StandsIn data (data.clamp span) where
  stop_le := Nat.min_le_right _ _
  start_le := Nat.le_refl _
  offset_le := Nat.min_le_right _ _
  rest_eq := rfl

namespace StandsIn

variable {data : Bytes} {range : Span} {walker after : Walker} {chunk : Chunk} {fault : Fault}

theorem length_rest (h : walker.StandsIn data range) :
    walker.rest.length = range.stop - walker.offset := by
  rw [h.rest_eq, Bytes.length_slice_of_le h.stop_le]

theorem rest_eq_encode_append_iff (h : walker.StandsIn data range) {header : ChunkHeader}
    {body : Bytes} (hlt : header.length < 2 ^ 32) :
    walker.rest = header.encode ++ body ↔
      walker.offset + 8 ≤ range.stop ∧
        data.slice ⟨walker.offset, walker.offset + 4⟩ = header.name.bytes ∧
        data.lengthAt walker.offset = header.length ∧
        body = data.slice ⟨walker.offset + 8, range.stop⟩ := by
  rw [h.rest_eq]
  exact Bytes.slice_eq_encode_append_iff h.stop_le h.offset_le hlt

/-- A step finds nothing exactly at the end of the range. -/
theorem next_eq_none_iff (h : walker.StandsIn data range) :
    walker.next = .ok none ↔ walker.offset = range.stop := by
  have hlength := h.length_rest
  have hle := h.offset_le
  rw [Walker.next_eq_none_iff, ← List.length_eq_zero_iff]
  omega

/-- **No whole chunk.** A step fails exactly if there are bytes and they break off, and the fault
tells how. -/
theorem next_eq_error_iff (h : walker.StandsIn data range) :
    walker.next = .error fault ↔ data.BreaksOff range.stop walker.offset fault := by
  have hlength := h.length_rest
  have hle := h.offset_le
  rw [Walker.next_eq_error_iff, ← List.length_pos_iff]
  constructor
  · rintro (⟨hmore, hshort, rfl⟩ | ⟨header, body, hrest, hlt, hcases⟩)
    · exact .insideHeader (by omega) (by omega)
    · obtain ⟨hwhole, hname, hcount, rfl⟩ := (h.rest_eq_encode_append_iff hlt).mp hrest
      have hbody : (data.slice ⟨walker.offset + 8, range.stop⟩).length =
          range.stop - (walker.offset + 8) := Bytes.length_slice_of_le h.stop_le
      rw [hbody, ← hcount] at hcases
      rcases hcases with ⟨hlarge, rfl⟩ | ⟨hmax, hshort, rfl⟩
      · exact .tooLarge hwhole hname hlarge
      · exact .insidePayload hwhole hname hmax hshort
  · have hheader {name : FourCC} (hwhole : walker.offset + 8 ≤ range.stop)
        (hname : data.slice ⟨walker.offset, walker.offset + 4⟩ = name.bytes) :
        data.lengthAt walker.offset < 2 ^ 32 ∧
          walker.rest = (ChunkHeader.mk name (data.lengthAt walker.offset)).encode ++
            data.slice ⟨walker.offset + 8, range.stop⟩ := by
      have hlt := Bytes.lengthAt_lt (Nat.le_trans hwhole h.stop_le)
      exact ⟨hlt, (h.rest_eq_encode_append_iff hlt).mpr ⟨hwhole, hname, rfl, rfl⟩⟩
    have hbody : (data.slice ⟨walker.offset + 8, range.stop⟩).length =
        range.stop - (walker.offset + 8) := Bytes.length_slice_of_le h.stop_le
    intro hbreaks
    cases hbreaks with
    | insideHeader more short => exact .inl ⟨by omega, by omega, rfl⟩
    | tooLarge whole name_eq large =>
      obtain ⟨hlt, hrest⟩ := hheader whole name_eq
      exact .inr ⟨_, _, hrest, hlt, .inl ⟨large, rfl⟩⟩
    | insidePayload whole name_eq length_le short =>
      obtain ⟨hlt, hrest⟩ := hheader whole name_eq
      refine .inr ⟨_, _, hrest, hlt, .inr ⟨length_le, ?_, ?_⟩⟩
      · rwa [hbody]
      · rw [hbody]

/-- A step finds the chunk that stands where the walker does. -/
theorem hasChunk_of_next (h : walker.StandsIn data range)
    (hn : walker.next = .ok (some (chunk, after))) :
    data.HasChunk range.stop walker.offset chunk := by
  obtain ⟨name, payload, back, hrest, hmax, rfl, rfl⟩ := Walker.next_eq_some_iff.mp hn
  obtain ⟨hwhole, hname, hcount, hbody⟩ :=
    (h.rest_eq_encode_append_iff (length_lt_of_le_max hmax)).mp hrest
  have hlength := congrArg List.length hbody
  rw [List.length_append, Bytes.length_slice_of_le h.stop_le] at hlength
  have hpayload := data.take_slice
    (by omega : walker.offset + 8 + payload.length ≤ range.stop)
  rw [← hbody, List.take_left] at hpayload
  refine ⟨rfl, ?_, ?_, hcount, hpayload.symm, hmax, ?_⟩
  · rw [ChunkKind.name_ofFourCC]
  · rw [ChunkKind.name_ofFourCC, hname]
  · change walker.offset + 8 + payload.length ≤ range.stop
    omega

/-- Where the walker stands behind a chunk. -/
theorem offset_of_next (h : walker.StandsIn data range)
    (hn : walker.next = .ok (some (chunk, after))) :
    after.offset =
      min range.stop (chunk.payloadSpan.stop + chunk.payload.length % 2) := by
  have hstop := (h.hasChunk_of_next hn).stop_le
  obtain ⟨name, payload, back, hrest, hmax, rfl, rfl⟩ := Walker.next_eq_some_iff.mp hn
  have hlength := congrArg List.length hrest
  rw [h.length_rest, List.length_append, List.length_append, ChunkHeader.length_encode] at hlength
  change walker.offset + 8 + payload.length ≤ range.stop at hstop
  change walker.offset + 8 + payload.length + min (payload.length % 2) back.length =
    min range.stop (walker.offset + 8 + payload.length + payload.length % 2)
  omega

/-- **A whole chunk.** A step finds a chunk exactly if it stands where the walker does. -/
theorem next_eq_some_iff (h : walker.StandsIn data range) :
    (∃ after, walker.next = .ok (some (chunk, after))) ↔
      data.HasChunk range.stop walker.offset chunk := by
  constructor
  · rintro ⟨after, hn⟩
    exact h.hasChunk_of_next hn
  · intro hchunk
    have hlt := length_lt_of_le_max hchunk.length_le
    have hstop : chunk.offset + 8 + chunk.payload.length ≤ range.stop := hchunk.stop_le
    rw [hchunk.offset_eq] at hstop
    have hpayload : data.slice ⟨walker.offset + 8, walker.offset + 8 + chunk.payload.length⟩ =
        chunk.payload := by
      rw [← hchunk.offset_eq]
      exact hchunk.payload_eq
    have hrest : walker.rest = (ChunkHeader.mk chunk.kind.name chunk.payload.length).encode ++
        (chunk.payload ++
          data.slice ⟨walker.offset + 8 + chunk.payload.length, range.stop⟩) := by
      have hcut := data.slice_append_slice (Nat.le_add_right (walker.offset + 8) _) hstop
      rw [hpayload] at hcut
      exact (h.rest_eq_encode_append_iff hlt).mpr
        ⟨by omega, hchunk.name_eq, hchunk.length_eq, hcut⟩
    refine ⟨_, Walker.next_eq_some_iff.mpr
      ⟨chunk.kind.name, chunk.payload, _, hrest, hchunk.length_le, ?_, rfl⟩⟩
    obtain ⟨kind, offset, payload⟩ := chunk
    rw [Chunk.mk.injEq]
    exact ⟨hchunk.kind_eq, hchunk.offset_eq, rfl⟩

/-- A step stays inside the range. -/
theorem of_next (h : walker.StandsIn data range)
    (hn : walker.next = .ok (some (chunk, after))) : after.StandsIn data range := by
  have hoffset := h.offset_of_next hn
  have hchunk := h.hasChunk_of_next hn
  have hbehind : chunk.payloadSpan.stop = walker.offset + 8 + chunk.payload.length := by
    rw [← hchunk.offset_eq]
    rfl
  have hrest : after.rest =
      data.slice ⟨chunk.payloadSpan.stop + chunk.payload.length % 2, range.stop⟩ := by
    rw [hbehind]
    obtain ⟨name, payload, back, hrest, hmax, rfl, rfl⟩ := Walker.next_eq_some_iff.mp hn
    obtain ⟨-, -, -, hbody⟩ := (h.rest_eq_encode_append_iff (length_lt_of_le_max hmax)).mp hrest
    have hback := data.drop_slice (walker.offset + 8) range.stop payload.length
    rw [← hbody, List.drop_left] at hback
    change back.drop (payload.length % 2) = _
    rw [hback, Bytes.drop_slice]
  have hstop := hchunk.stop_le
  have hstart := h.start_le
  refine ⟨h.stop_le, by omega, by omega, ?_⟩
  rw [hrest, hoffset, Bytes.slice_min]

theorem call (h : walker.StandsIn data range) : walker.call.2.StandsIn data range := by
  by_cases hc : ∃ chunk, walker.call.1 = .ok (some chunk)
  · obtain ⟨chunk, hchunk⟩ := hc
    obtain ⟨after, hn⟩ := call_eq_some_iff.mp hchunk
    rw [call_of_next_eq_some hn]
    exact h.of_next hn
  · rw [call_snd_of_forall_ne (not_exists.mp hc)]
    exact h

/-- However often it is asked, a walker stays inside its range. -/
theorem afterCalls (h : walker.StandsIn data range) (n : Nat) :
    (walker.afterCalls n).StandsIn data range := by
  induction n with
  | zero => exact h
  | succ n ih =>
    rw [afterCalls_succ]
    exact ih.call

theorem answer_eq_some_iff (h : walker.StandsIn data range) (n : Nat) :
    walker.answer n = .ok (some chunk) ↔
      data.HasChunk range.stop (walker.afterCalls n).offset chunk := by
  rw [answer, call_eq_some_iff]
  exact (h.afterCalls n).next_eq_some_iff

/-- A chunk takes eight bytes of the range at least. -/
theorem offset_afterCalls (h : walker.StandsIn data range) {n : Nat}
    (hn : walker.answer n = .ok (some chunk)) :
    (walker.afterCalls (n + 1)).offset =
        min range.stop (chunk.payloadSpan.stop + chunk.payload.length % 2) ∧
      (walker.afterCalls n).offset + 8 ≤ (walker.afterCalls (n + 1)).offset := by
  have hstands := h.afterCalls n
  obtain ⟨after, hnext⟩ := call_eq_some_iff.mp hn
  have hoffset := hstands.offset_of_next hnext
  have hchunk := hstands.hasChunk_of_next hnext
  have hstop : chunk.offset + 8 + chunk.payload.length ≤ range.stop := hchunk.stop_le
  have hbehind : chunk.payloadSpan.stop = chunk.offset + 8 + chunk.payload.length := rfl
  rw [hchunk.offset_eq] at hstop hbehind
  rw [afterCalls_succ, call_of_next_eq_some hnext]
  refine ⟨hoffset, ?_⟩
  dsimp only
  omega

/-- The chunks that are found fit into the range, each with its header. -/
theorem le_stop_of_answer (h : walker.StandsIn data range) {n : Nat}
    (hn : walker.answer n = .ok (some chunk)) : walker.offset + 8 * (n + 1) ≤ range.stop := by
  induction n generalizing walker with
  | zero =>
    have hmoved := (h.offset_afterCalls hn).2
    have hle := (h.afterCalls 1).offset_le
    change walker.offset + 8 ≤ (walker.afterCalls 1).offset at hmoved
    omega
  | succ n ih =>
    by_cases hc : ∃ first, walker.answer 0 = .ok (some first)
    · obtain ⟨first, hfirst⟩ := hc
      have hmoved := (h.offset_afterCalls hfirst).2
      have hrest := ih h.call hn
      change walker.offset + 8 ≤ walker.call.2.offset at hmoved
      omega
    · have hsame := afterCalls_of_forall_ne (not_exists.mp hc) (Nat.zero_le (n + 1))
      rw [answer, hsame] at hn
      exact absurd ⟨chunk, hn⟩ hc

end StandsIn

/-- The walker over the chunks inside a chunk is one over a range of the same file. -/
theorem children_eq_over {data : Bytes} {stop offset : Nat} {chunk : Chunk}
    (h : data.HasChunk stop offset chunk) (hstop : stop ≤ data.length) (headerLength : Nat) :
    chunk.children headerLength =
      Walker.over data ⟨chunk.payloadSpan.start + headerLength, chunk.payloadSpan.stop⟩ := by
  have hle := h.stop_le
  have hspan : chunk.payloadSpan.stop = chunk.payloadSpan.start + chunk.payload.length := rfl
  have hrest := data.drop_slice chunk.payloadSpan.start chunk.payloadSpan.stop headerLength
  have hpayload : data.slice ⟨chunk.payloadSpan.start, chunk.payloadSpan.stop⟩ = chunk.payload :=
    h.payload_eq
  rw [hpayload] at hrest
  have hlong : min chunk.payloadSpan.stop data.length = chunk.payloadSpan.stop :=
    Nat.min_eq_left (Nat.le_trans hle hstop)
  rw [Walker.over]
  dsimp only
  rw [hlong, Nat.min_comm _ chunk.payloadSpan.stop, Bytes.slice_min, ← hrest, Chunk.children,
    mk.injEq]
  exact ⟨by omega, rfl⟩

/-! ### All calls -/

/-- What is true of all calls of a walker over a range of a file. -/
structure KeepsToRange (data : Bytes) (range : Span) (walker : Walker) : Prop where
  within : ∀ n, range.start ≤ (walker.afterCalls n).offset ∧
    (walker.afterCalls n).offset ≤ range.stop
  some_iff : ∀ n chunk, walker.answer n = .ok (some chunk) ↔
    data.HasChunk range.stop (walker.afterCalls n).offset chunk
  none_iff : ∀ n, walker.answer n = .ok none ↔ (walker.afterCalls n).offset = range.stop
  error_iff : ∀ n fault, walker.answer n = .error fault ↔
    data.BreaksOff range.stop (walker.afterCalls n).offset fault
  /-- A chunk moves the walker behind its padding, or to the end if that is missing. -/
  moves : ∀ n chunk, walker.answer n = .ok (some chunk) →
    (walker.afterCalls (n + 1)).offset =
        min range.stop (chunk.payloadSpan.stop + chunk.payload.length % 2) ∧
      (walker.afterCalls n).offset + 8 ≤ (walker.afterCalls (n + 1)).offset
  /-- Without a chunk all later calls are answered alike. -/
  stays : ∀ n, (∀ chunk, walker.answer n ≠ .ok (some chunk)) → ∀ m, n ≤ m →
    walker.afterCalls m = walker.afterCalls n ∧ walker.answer m = walker.answer n
  bounded : ∀ n chunk, walker.answer n = .ok (some chunk) →
    8 * (n + 1) ≤ range.stop - range.start
  /-- The chunks leave no gap and do not overlap. -/
  fills : ∀ n, Fill range.start (walker.afterCalls n).offset ((walker.found n).map Chunk.entry)
  /-- An iterator yields the chunks that calls find, and a fault behind them. -/
  items : ∃ n, walker.answer n = .ok none ∧ walker.items = (walker.found n).map .ok ∨
    ∃ fault, walker.answer n = .error fault ∧
      walker.items = (walker.found n).map .ok ++ [.error fault]
  /-- A walker over the chunks inside a chunk is one over a range of the file, and finds them behind
  the header and inside the payload. -/
  children : ∀ n chunk, walker.answer n = .ok (some chunk) → ∀ headerLength,
    chunk.children headerLength =
        Walker.over data ⟨chunk.payloadSpan.start + headerLength, chunk.payloadSpan.stop⟩ ∧
      ∀ m part, (chunk.children headerLength).answer m = .ok (some part) →
        chunk.payloadSpan.start + headerLength ≤ part.offset ∧
          part.payloadSpan.stop ≤ chunk.payloadSpan.stop

/-- The iterator comes to its end with the calls. -/
theorem exists_items_eq (walker : Walker) :
    ∃ n, walker.answer n = .ok none ∧ walker.items = (walker.found n).map .ok ∨
      ∃ fault, walker.answer n = .error fault ∧
        walker.items = (walker.found n).map .ok ++ [.error fault] := by
  refine ⟨walker.walk.chunks.length, ?_⟩
  rw [answer_eq, items_eq, found_eq, List.take_length, Walk.answer,
    List.getElem?_eq_none (Nat.le_refl _)]
  cases walker.walk.fault with
  | none => exact .inl ⟨rfl, by rw [Option.toList_none, List.map_nil, List.append_nil]⟩
  | some fault => exact .inr ⟨fault, rfl, rfl⟩

/-- **Any range of any bytes.** All calls of a walker keep to the part of its range that is
there. -/
theorem keepsToRange_over (data : Bytes) (span : Span) :
    (Walker.over data span).KeepsToRange data (data.clamp span) := by
  have h := standsIn_over data span
  have hstands := h.afterCalls
  refine
    { within := fun n => ⟨(hstands n).start_le, (hstands n).offset_le⟩
      some_iff := fun n chunk => h.answer_eq_some_iff n
      none_iff := fun n => ?_
      error_iff := fun n fault => ?_
      moves := fun n chunk => h.offset_afterCalls
      stays := fun n hn m hle => ?_
      bounded := fun n chunk hn => ?_
      fills := fill_found (Walker.over data span)
      items := exists_items_eq (Walker.over data span)
      children := fun n chunk hn headerLength => ?_ }
  · rw [answer, call_eq_none_iff]
    exact (hstands n).next_eq_none_iff
  · rw [answer, call_eq_error_iff]
    exact (hstands n).next_eq_error_iff
  · have hsame := afterCalls_of_forall_ne hn hle
    exact ⟨hsame, congrArg (fun w => w.call.1) hsame⟩
  · have hstart : (data.clamp span).start = (Walker.over data span).offset := rfl
    have hle := h.le_stop_of_answer hn
    omega
  · have hchunk := (h.answer_eq_some_iff n).mp hn
    have hover := children_eq_over hchunk h.stop_le headerLength
    refine ⟨hover, fun m part hpart => ?_⟩
    rw [hover] at hpart
    have hinner := standsIn_over data
      ⟨chunk.payloadSpan.start + headerLength, chunk.payloadSpan.stop⟩
    have hfound := (hinner.answer_eq_some_iff m).mp hpart
    have hle : chunk.payloadSpan.stop ≤ data.length := Nat.le_trans hchunk.stop_le h.stop_le
    have hstop : part.payloadSpan.stop ≤ min chunk.payloadSpan.stop data.length := hfound.stop_le
    have hstart : min (chunk.payloadSpan.start + headerLength)
        (min chunk.payloadSpan.stop data.length) ≤ part.offset := by
      rw [hfound.offset_eq]
      exact (hinner.afterCalls m).start_le
    have hlong : part.payloadSpan.stop = part.offset + 8 + part.payload.length := rfl
    omega

end Walker

end WebP
