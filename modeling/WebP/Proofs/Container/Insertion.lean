import WebP.Proofs.Chunk.Insertion
import WebP.Proofs.Container.Framing

/-!
# A chunk put into a file

An unknown chunk may be put into a file wherever a walk over its chunks stands in front of a chunk
header, or behind the last padding. There are two such walks, the one over the chunks of the file
and the one over the chunks inside a frame. The bytes behind stand further back then, and the
lengths of the chunks around the new one are written anew: that of the file, and that of the frame
if the new chunk is inside one.

## Main definitions

* `WebP.Bytes.insertAt`, `WebP.Bytes.grow`: the two edits of which all is made.
* `WebP.Bytes.WholeChunks`, `WebP.Bytes.Stands`: where a walk over a file stands.
* `WebP.Insertion`: an unknown chunk and where it is put, with the bytes `Insertion.apply`.
* `WebP.Insertion.Edits`: how the bytes of the chunks of a file change.

## Main results

* `WebP.Bytes.exists_wholeChunks`: a walk stands in no other places.
* `WebP.Insertion.edits_apply`: what is made is a file, of which the chunks have changed so.
-/

namespace WebP

namespace Bytes

/-- The byte string with `more` put in at an offset. -/
def insertAt (data : Bytes) (offset : Nat) (more : Bytes) : Bytes :=
  data.take offset ++ (more ++ data.drop offset)

/-- The byte string in which the chunk header at an offset declares `count` bytes more. -/
def grow (data : Bytes) (offset count : Nat) : Bytes :=
  data.take (offset + 4) ++ (.ofNatLE 4 (data.lengthAt offset + count) ++ data.drop (offset + 8))

theorem insertAt_append (front more back : Bytes) :
    (front ++ back).insertAt front.length more = front ++ (more ++ back) := by
  rw [insertAt, List.take_left, List.drop_left]

theorem grow_encode (front back : Bytes) (count : Nat) {header : ChunkHeader}
    (hlt : header.length < 2 ^ 32) :
    (front ++ (header.encode ++ back)).grow front.length count =
      front ++ ((ChunkHeader.mk header.name (header.length + count)).encode ++ back) := by
  have htake : (front ++ (header.encode ++ back)).take (front.length + 4) =
      front ++ header.name.bytes := by
    rw [ChunkHeader.encode, List.append_assoc, ← List.append_assoc front]
    exact List.take_left' (by rw [List.length_append, FourCC.length_bytes])
  have hdrop : (front ++ (header.encode ++ back)).drop (front.length + 8) = back := by
    rw [← List.append_assoc]
    exact List.drop_left' (by rw [List.length_append, ChunkHeader.length_encode])
  rw [grow, lengthAt_encode front back hlt, htake, hdrop, ChunkHeader.encode]
  simp only [List.append_assoc]

/-- The bytes from `start` up to `stop` are chunks with all their padding, so that a walk that
begins at the one offset comes to the other. -/
structure WholeChunks (data : Bytes) (start stop : Nat) : Prop where
  le : start ≤ stop
  even : (stop - start) % 2 = 0
  tiles : ∃ chunks, Tiles start (data.slice ⟨start, stop⟩) chunks

/-- A walk over the file stands at `offset`, in front of a chunk header or behind the last
padding. It is the walk over the chunks of the file, or the one over the chunks inside the frame
whose header stands at the other offset. -/
inductive Stands (data : Bytes) : (frame? : Option Nat) → (offset : Nat) → Prop
  | amongChunks {offset : Nat} (before : data.WholeChunks 12 offset)
      (offset_le : offset ≤ data.declaredLength + 8) : Stands data none offset
  | insideFrame {frame offset : Nat} (before : data.WholeChunks 12 frame)
      (isFrame : data.slice ⟨frame, frame + 4⟩ = FourCC.anmf.bytes)
      (complete : frame + 8 + data.lengthAt frame ≤ data.declaredLength + 8)
      (behind : data.WholeChunks (frame + 24) offset)
      (offset_le : offset ≤ frame + 8 + data.lengthAt frame) : Stands data (some frame) offset

end Bytes

/-- An unknown chunk, and where it is put. -/
structure Insertion where
  unknown : UnknownChunk
  /-- The offset at which the header of the chunk will stand. -/
  offset : Nat
  /-- The offset of the frame chunk inside which the chunk is put, unless it is put among the chunks
  of the file. -/
  frame? : Option Nat := none

namespace Insertion

/-- The number of bytes that are put in. -/
def size (insertion : Insertion) : Nat := insertion.unknown.size

/-- The file with the chunk in its place. The file, and the frame if there is one, are longer. -/
def apply (insertion : Insertion) (data : Bytes) : Bytes :=
  let enlarged := (data.insertAt insertion.offset insertion.unknown.bytes).grow 0 insertion.size
  match insertion.frame? with
  | none => enlarged
  | some frame => enlarged.grow frame insertion.size

/-- The payload of the frame at an offset, with the chunk in its place, which is behind the header
of the frame and a run of whole chunks. -/
inductive EditsFrame (insertion : Insertion) (frame : Nat) : (payload edited : Bytes) → Prop
  | insert {head inner rest : Bytes} {parts : List Chunk}
      (frame?_eq : insertion.frame? = some frame)
      (length_head : head.length = FrameHeader.encodedLength)
      (tiles : Tiles (frame + 24) inner parts) (padded : inner.length % 2 = 0)
      (offset_eq : insertion.offset = frame + 24 + inner.length) :
      EditsFrame insertion frame (head ++ (inner ++ rest))
        (head ++ (inner ++ (insertion.unknown.bytes ++ rest)))

/-- The chunks of a file, with the chunk in its place, which is behind a run of whole chunks or
inside a frame that stands behind such a run. -/
inductive Edits (insertion : Insertion) : (chunks edited : Bytes) → Prop
  | amongChunks {run rest : Bytes} {front : List Chunk} (frame?_eq : insertion.frame? = none)
      (tiles : Tiles 12 run front) (padded : run.length % 2 = 0)
      (offset_eq : insertion.offset = 12 + run.length) :
      Edits insertion (run ++ rest) (run ++ (insertion.unknown.bytes ++ rest))
  | insideFrame {run payload payload' back : Bytes} {front : List Chunk}
      (tiles : Tiles 12 run front) (padded : run.length % 2 = 0)
      (frame : insertion.EditsFrame (12 + run.length) payload payload') :
      Edits insertion
        (run ++ ((ChunkHeader.mk .anmf payload.length).encode ++ (payload ++ back)))
        (run ++ ((ChunkHeader.mk .anmf payload'.length).encode ++ (payload' ++ back)))

namespace EditsFrame

variable {insertion : Insertion} {frame : Nat} {payload edited : Bytes}

theorem length_eq (h : insertion.EditsFrame frame payload edited) :
    edited.length = payload.length + insertion.size := by
  cases h
  simp only [List.length_append, UnknownChunk.length_bytes, size]
  omega

/-- The header of the frame is in front of the chunk. -/
theorem encodedLength_le (h : insertion.EditsFrame frame payload edited) :
    FrameHeader.encodedLength ≤ payload.length := by
  cases h with
  | insert _ length_head =>
    rw [List.length_append, length_head]
    exact Nat.le_add_right _ _

theorem decode_eq (h : insertion.EditsFrame frame payload edited) :
    FrameHeader.decode edited = FrameHeader.decode payload := by
  cases h with
  | insert _ length_head =>
    rw [FrameHeader.decode_append length_head, FrameHeader.decode_append length_head]

theorem frame?_eq (h : insertion.EditsFrame frame payload edited) :
    insertion.frame? = some frame := by
  cases h
  assumption

/-- The chunk is put behind the header of the frame, and not behind its end. -/
theorem offset_mem (h : insertion.EditsFrame frame payload edited) :
    frame < insertion.offset ∧ insertion.offset ≤ frame + 8 + payload.length := by
  cases h with
  | insert _ length_head =>
    simp only [List.length_append, length_head, FrameHeader.encodedLength]
    omega

end EditsFrame

end Insertion

section Apply

variable {data : Bytes}

/-- The file around a change of its chunks. -/
theorem IsFramed.insertAt_grow (h : IsFramed data) {before after : Bytes}
    (hchunks : data.slice ⟨12, data.declaredLength + 8⟩ = before ++ after) (more : Bytes)
    (count : Nat) :
    (data.insertAt (12 + before.length) more).grow 0 count =
      (ChunkHeader.mk .riff (data.declaredLength + count)).encode ++ (FourCC.webp.bytes ++
        (before ++ (more ++ after) ++ data.drop (data.declaredLength + 8))) := by
  have hdata := h.eq_append
  rw [hchunks] at hdata
  generalize hback : data.drop (data.declaredLength + 8) = back at hdata ⊢
  generalize hlength : data.declaredLength = length at hdata ⊢
  have hlt : length < 2 ^ 32 := hlength ▸ data.declaredLength_lt
  have hcut : data = ((ChunkHeader.mk .riff length).encode ++ (FourCC.webp.bytes ++ before)) ++
      (after ++ back) := by
    rw [hdata]
    simp only [List.append_assoc]
  have hfront : ((ChunkHeader.mk .riff length).encode ++
      (FourCC.webp.bytes ++ before)).length = 12 + before.length := by
    simp only [List.length_append, ChunkHeader.length_encode, FourCC.length_bytes]
    omega
  rw [hcut, ← hfront, Bytes.insertAt_append]
  simp only [List.append_assoc]
  exact Bytes.grow_encode [] _ count hlt

theorem Bytes.WholeChunks.split {start stop stop' : Nat} (h : data.WholeChunks start stop)
    (hle : stop ≤ stop') (hlong : stop' ≤ data.length) :
    ∃ run chunks, data.slice ⟨start, stop'⟩ = run ++ data.slice ⟨stop, stop'⟩ ∧
      Tiles start run chunks ∧ run.length % 2 = 0 ∧ stop = start + run.length := by
  obtain ⟨hstart, heven, chunks, htiles⟩ := h
  have hlength : (data.slice ⟨start, stop⟩).length = stop - start :=
    length_slice_of_le (by omega)
  exact ⟨_, chunks, (data.slice_append_slice hstart hle).symm, htiles, by rw [hlength, heven],
    by omega⟩

/-- Wherever a walk stands in front of a chunk header, it stands behind whole chunks. -/
theorem Bytes.exists_wholeChunks {start stop : Nat} {front back : List Chunk}
    {fault : Option Fault} (hlong : stop ≤ data.length) (hle : start ≤ stop)
    (h : (Walker.mk start (data.slice ⟨start, stop⟩)).walk = ⟨front ++ back, fault⟩)
    (hmore : back ≠ [] ∨ fault ≠ none) :
    ∃ offset ≤ stop, data.WholeChunks start offset ∧
      (Walker.mk offset (data.slice ⟨offset, stop⟩)).walk = ⟨back, fault⟩ := by
  obtain ⟨run, rest, hsplit, htiles, hpadded, hrest⟩ := Walker.exists_run_of_walk h hmore
  dsimp only at hsplit htiles hrest
  have hlength : (data.slice ⟨start, stop⟩).length = stop - start := length_slice_of_le hlong
  rw [hsplit, List.length_append] at hlength
  have hcut := data.slice_append_slice (Nat.le_add_right start run.length)
    (by omega : start + run.length ≤ stop)
  have hrun : (data.slice ⟨start, start + run.length⟩).length = run.length := by
    rw [length_slice_of_le (by omega), Nat.add_sub_cancel_left]
  obtain ⟨hfirst, hsecond⟩ := List.append_inj (hcut.trans hsplit) hrun
  refine ⟨start + run.length, by omega, ⟨Nat.le_add_right _ _, ?_, front, ?_⟩, ?_⟩
  · rw [Nat.add_sub_cancel_left, hpadded]
  · rw [hfirst]
    exact htiles
  · rw [hsecond]
    exact hrest

/-- A walk that reaches the end of a range, with all padding in it. -/
theorem Bytes.wholeChunks_of_walk {start stop : Nat} (hle : start ≤ stop)
    (heven : (stop - start) % 2 = 0)
    (h : (Walker.mk start (data.slice ⟨start, stop⟩)).walk.fault = none) :
    data.WholeChunks start stop := by
  have hwalk : (Walker.mk start (data.slice ⟨start, stop⟩)).walk =
      ⟨(Walker.mk start (data.slice ⟨start, stop⟩)).walk.chunks, none⟩ := by rw [← h]
  exact ⟨hle, heven, _, Walker.tiles_of_walk hwalk⟩

/-- A file of which the chunks have been replaced by longer ones, and the declared length with
them. -/
theorem IsFramed.isFramed_of_chunks (h : IsFramed data) {edited body : Bytes} {count : Nat}
    (hedited : edited = (ChunkHeader.mk .riff (data.declaredLength + count)).encode ++
      (FourCC.webp.bytes ++ (body ++ data.drop (data.declaredLength + 8))))
    (hbody : body.length = (data.slice ⟨12, data.declaredLength + 8⟩).length + count)
    (hcount : 8 ≤ count) (room : data.declaredLength + count ≤ 2 ^ 32 - 9) :
    IsFramed edited ∧ edited.declaredLength = data.declaredLength + count ∧
      edited.slice ⟨12, edited.declaredLength + 8⟩ = body := by
  have hdeclared := h.declared_ge
  rw [Bytes.length_slice_of_le h.complete] at hbody
  subst hedited
  refine isFramed_encode_append ?_ ?_ room ?_
  · omega
  · omega
  · rw [List.length_append]
    omega

/-- The payload of a frame, cut behind the header of the frame and a run of whole chunks. -/
theorem Bytes.exists_frame {frame offset stop : Nat}
    (isFrame : data.slice ⟨frame, frame + 4⟩ = FourCC.anmf.bytes)
    (complete : frame + 8 + data.lengthAt frame ≤ stop) (hlong : stop ≤ data.length)
    (behind : data.WholeChunks (frame + 24) offset)
    (offset_le : offset ≤ frame + 8 + data.lengthAt frame) :
    ∃ head inner rest back parts, data.slice ⟨frame, stop⟩ =
        (ChunkHeader.mk .anmf (data.lengthAt frame)).encode ++ ((head ++ (inner ++ rest)) ++ back) ∧
      head.length = FrameHeader.encodedLength ∧
      (head ++ (inner ++ rest)).length = data.lengthAt frame ∧
      Tiles (frame + 24) inner parts ∧ inner.length % 2 = 0 ∧
      offset = frame + 24 + inner.length := by
  have hle := behind.le
  obtain ⟨inner, parts, hinner, htiles, hpadded, hoffset⟩ := behind.split offset_le (by omega)
  have hpayload : data.slice ⟨frame + 8, frame + 24⟩ ++ (inner ++
      data.slice ⟨offset, frame + 8 + data.lengthAt frame⟩) =
        data.slice ⟨frame + 8, frame + 8 + data.lengthAt frame⟩ := by
    rw [← hinner]
    exact data.slice_append_slice (by omega) (by omega)
  refine ⟨data.slice ⟨frame + 8, frame + 24⟩, inner,
    data.slice ⟨offset, frame + 8 + data.lengthAt frame⟩,
    data.slice ⟨frame + 8 + data.lengthAt frame, stop⟩, parts, ?_, ?_, ?_, htiles, hpadded, hoffset⟩
  · rw [hpayload, ← slice_header isFrame (by omega),
      data.slice_append_slice (by omega : frame + 8 ≤ frame + 8 + data.lengthAt frame) complete]
    exact (data.slice_append_slice (by omega) (by omega)).symm
  · rw [length_slice_of_le (by omega), FrameHeader.encodedLength]
    omega
  · rw [hpayload, length_slice_of_le (by omega)]
    omega

/-- The file around a change inside one of its frames. -/
theorem Insertion.EditsFrame.apply_eq (h : IsFramed data) {insertion : Insertion}
    {run payload payload' back : Bytes}
    (hframe : insertion.EditsFrame (12 + run.length) payload payload')
    (hchunks : data.slice ⟨12, data.declaredLength + 8⟩ =
      run ++ ((ChunkHeader.mk .anmf payload.length).encode ++ (payload ++ back)))
    (hlt : payload.length < 2 ^ 32) :
    insertion.apply data =
      (ChunkHeader.mk .riff (data.declaredLength + insertion.size)).encode ++
        (FourCC.webp.bytes ++
          ((run ++ ((ChunkHeader.mk .anmf payload'.length).encode ++ (payload' ++ back))) ++
            data.drop (data.declaredLength + 8))) := by
  have hlength := hframe.length_eq
  obtain ⟨unknown, offset, frame?⟩ := insertion
  cases hframe with
  | @insert head inner rest parts frame?_eq length_head _ _ offset_eq =>
    dsimp only at frame?_eq offset_eq
    subst frame?_eq
    generalize hpayload : head ++ (inner ++ rest) = payload at *
    have hcut : data.slice ⟨12, data.declaredLength + 8⟩ =
        (run ++ ((ChunkHeader.mk .anmf payload.length).encode ++ (head ++ inner))) ++
          (rest ++ back) := by
      rw [hchunks, ← hpayload]
      simp only [List.append_assoc]
    have hplace : 12 + (run ++ ((ChunkHeader.mk .anmf payload.length).encode ++
        (head ++ inner))).length = offset := by
      simp only [List.length_append, ChunkHeader.length_encode, length_head,
        FrameHeader.encodedLength]
      omega
    have henlarged := h.insertAt_grow hcut unknown.bytes unknown.size
    rw [hplace] at henlarged
    have hfront : ((ChunkHeader.mk .riff (data.declaredLength + unknown.size)).encode ++
        (FourCC.webp.bytes ++ run)).length = 12 + run.length := by
      simp only [List.length_append, ChunkHeader.length_encode, FourCC.length_bytes]
      omega
    have hgrown := Bytes.grow_encode
      ((ChunkHeader.mk .riff (data.declaredLength + unknown.size)).encode ++
        (FourCC.webp.bytes ++ run))
      (head ++ (inner ++ (unknown.bytes ++ rest)) ++ (back ++ data.drop (data.declaredLength + 8)))
      unknown.size (show (ChunkHeader.mk .anmf payload.length).length < 2 ^ 32 from hlt)
    rw [hfront] at hgrown
    rw [apply, hlength]
    dsimp only [size]
    rw [henlarged]
    simp only [List.append_assoc] at hgrown ⊢
    exact hgrown

/-- **A chunk put into a file.** What is made is a file, as much longer as the chunk, and its chunks
have changed in the one place. -/
theorem Insertion.edits_apply {insertion : Insertion} (h : IsFramed data)
    (hstands : data.Stands insertion.frame? insertion.offset)
    (room : data.declaredLength + insertion.size ≤ 2 ^ 32 - 9) :
    IsFramed (insertion.apply data) ∧
      (insertion.apply data).declaredLength = data.declaredLength + insertion.size ∧
      insertion.Edits (data.slice ⟨12, data.declaredLength + 8⟩)
        ((insertion.apply data).slice ⟨12, (insertion.apply data).declaredLength + 8⟩) := by
  obtain ⟨unknown, offset, frame?⟩ := insertion
  have hsize : unknown.bytes.length = unknown.size := unknown.length_bytes
  have hmin : 8 ≤ unknown.size := by
    rw [UnknownChunk.size]
    omega
  -- the chunks are known before and after, so the lengths are
  have hmade {edited body : Bytes}
      (hedited : edited = (ChunkHeader.mk .riff (data.declaredLength + unknown.size)).encode ++
        (FourCC.webp.bytes ++ (body ++ data.drop (data.declaredLength + 8))))
      (hbody : body.length = (data.slice ⟨12, data.declaredLength + 8⟩).length + unknown.size) :=
    h.isFramed_of_chunks hedited hbody hmin room
  cases hstands with
  | amongChunks before offset_le =>
    obtain ⟨run, front, hchunks, htiles, hpadded, hoffset⟩ := before.split offset_le h.complete
    generalize data.slice ⟨offset, data.declaredLength + 8⟩ = rest at hchunks
    subst hoffset
    have happly : (Insertion.mk unknown (12 + run.length) none).apply data = _ :=
      h.insertAt_grow hchunks unknown.bytes unknown.size
    obtain ⟨hframed, hdeclared, hslice⟩ := hmade happly (by
      simp only [hchunks, List.length_append, hsize]
      omega)
    refine ⟨hframed, hdeclared, ?_⟩
    rw [hchunks, hslice]
    exact .amongChunks rfl htiles hpadded rfl
  | @insideFrame frame _ before isFrame complete behind offset_le =>
    obtain ⟨run, front, hchunks, htiles, hpadded, hframe⟩ := before.split (by omega) h.complete
    obtain ⟨head, inner, rest, back, parts, hpayload, hhead, hlength, hparts, hinner, hoffset⟩ :=
      Bytes.exists_frame isFrame complete h.complete behind offset_le
    have hlt : data.lengthAt frame < 2 ^ 32 := by
      have := data.declaredLength_lt
      omega
    rw [hpayload] at hchunks
    generalize data.lengthAt frame = length at *
    subst hframe hlength
    have hedit : EditsFrame ⟨unknown, offset, some (12 + run.length)⟩ (12 + run.length)
        (head ++ (inner ++ rest)) (head ++ (inner ++ (unknown.bytes ++ rest))) :=
      .insert rfl hhead hparts hinner hoffset
    obtain ⟨hframed, hdeclared, hslice⟩ := hmade (hedit.apply_eq h hchunks hlt) (by
      simp only [hchunks, List.length_append, ChunkHeader.length_encode, hsize]
      omega)
    refine ⟨hframed, hdeclared, ?_⟩
    rw [hchunks, hslice]
    exact .insideFrame htiles hpadded hedit

end Apply

end WebP
