import WebP.Proofs.Chunk.Calls

/-!
# Writing chunks

Chunks are written one behind the other. What a reader makes of them does not depend on the byte
that pads a payload of odd length, nor on whether that byte is there behind the last payload, nor
on what stands in front of the range and behind it.

## Main definitions

* `WebP.Piece`: a chunk to be written, with `Piece.write` and the chunks that a walker finds.
* `WebP.PaddedPiece`: a chunk with the byte that pads it, with `PaddedPiece.write`.
* `WebP.Walker.Finds`: a walker tells of each chunk that was written, and of nothing else.

## Main results

* `WebP.PaddedPiece.tiles_chunks`: written chunks are a run of chunks.
* `WebP.Walker.finds_write`: a walker over the range of written chunks finds them.
-/

namespace WebP

/-- A chunk to be written. -/
structure Piece where
  name : FourCC
  payload : Bytes

namespace Piece

/-- What the chunk holds. -/
def kind (piece : Piece) : ChunkKind := .ofFourCC piece.name

/-- The chunk with its header and, behind a payload of odd length, a zero byte. -/
def bytes (piece : Piece) : Bytes :=
  (ChunkHeader.mk piece.name piece.payload.length).encode ++
    (piece.payload ++ List.replicate (piece.payload.length % 2) 0)

/-- Chunks written one after another. -/
def write (pieces : List Piece) : Bytes := pieces.flatMap bytes

/-- The chunks that were written from an offset on. -/
def chunks : Nat → List Piece → List Chunk
  | _, [] => []
  | offset, piece :: pieces =>
    ⟨piece.kind, offset, piece.payload⟩ :: chunks (offset + piece.bytes.length) pieces

/-- A chunk that may be left out. -/
def optional (name : FourCC) (payload : Option Bytes) : List Piece :=
  (payload.map (Piece.mk name)).toList

variable {pieces : List Piece} {piece : Piece}

theorem length_bytes (piece : Piece) :
    piece.bytes.length = 8 + piece.payload.length + piece.payload.length % 2 := by
  simp only [bytes, List.length_append, ChunkHeader.length_encode, List.length_replicate]
  omega

@[simp] theorem write_nil : write [] = [] := rfl

@[simp] theorem write_cons (piece : Piece) (pieces : List Piece) :
    write (piece :: pieces) = piece.bytes ++ write pieces := List.flatMap_cons

@[simp] theorem write_append (a b : List Piece) : write (a ++ b) = write a ++ write b :=
  List.flatMap_append

theorem chunks_append (offset : Nat) (a b : List Piece) :
    chunks offset (a ++ b) = chunks offset a ++ chunks (offset + (write a).length) b := by
  induction a generalizing offset with
  | nil => rfl
  | cons piece a ih =>
    rw [List.cons_append, chunks, ih, chunks, write_cons, List.length_append, Nat.add_assoc,
      List.cons_append]

theorem map_kind_chunks (offset : Nat) (pieces : List Piece) :
    (chunks offset pieces).map Chunk.kind = pieces.map kind := by
  induction pieces generalizing offset with
  | nil => rfl
  | cons piece pieces ih => rw [chunks, List.map_cons, List.map_cons, ih]

theorem map_payload_chunks (offset : Nat) (pieces : List Piece) :
    (chunks offset pieces).map Chunk.payload = pieces.map payload := by
  induction pieces generalizing offset with
  | nil => rfl
  | cons piece pieces ih => rw [chunks, List.map_cons, List.map_cons, ih]

theorem length_payload_le_write (h : piece ∈ pieces) :
    piece.payload.length ≤ (write pieces).length := by
  obtain ⟨front, back, rfl⟩ := List.append_of_mem h
  rw [write_append, write_cons, List.length_append, List.length_append, length_bytes]
  omega

/-- With its padding, each chunk has an even length. -/
theorem length_write_even (pieces : List Piece) : (write pieces).length % 2 = 0 := by
  induction pieces with
  | nil => rfl
  | cons piece pieces ih =>
    rw [write_cons, List.length_append, length_bytes]
    omega

end Piece

/-! ### Any padding -/

/-- A chunk to be written, with the byte that stands behind a payload of odd length. -/
structure PaddedPiece extends Piece where
  pad : UInt8

namespace PaddedPiece

/-- The chunk with its header, and without padding. -/
def unpadded (piece : PaddedPiece) : Bytes :=
  (ChunkHeader.mk piece.name piece.payload.length).encode ++ piece.payload

/-- The chunk with its padding. -/
def bytes (piece : PaddedPiece) : Bytes :=
  piece.unpadded ++ List.replicate (piece.payload.length % 2) piece.pad

/-- Chunks written one after another. The padding of the last one may be left out. -/
def write (padsLast : Bool) : List PaddedPiece → Bytes
  | [] => []
  | [piece] => if padsLast then piece.bytes else piece.unpadded
  | piece :: next :: pieces => piece.bytes ++ write padsLast (next :: pieces)

/-- The chunks that were written from an offset on. -/
def chunks (offset : Nat) (pieces : List PaddedPiece) : List Chunk :=
  Piece.chunks offset (pieces.map toPiece)

variable {pieces : List PaddedPiece} {piece : PaddedPiece}

theorem length_bytes (piece : PaddedPiece) : piece.bytes.length = piece.toPiece.bytes.length := by
  simp only [bytes, unpadded, Piece.bytes, List.length_append, List.length_replicate]
  omega

theorem write_cons_of_ne_nil (padsLast : Bool) (piece : PaddedPiece) (h : pieces ≠ []) :
    write padsLast (piece :: pieces) = piece.bytes ++ write padsLast pieces := by
  obtain ⟨next, pieces, rfl⟩ := List.exists_cons_of_ne_nil h
  rfl

theorem write_true_cons (piece : PaddedPiece) (pieces : List PaddedPiece) :
    write true (piece :: pieces) = piece.bytes ++ write true pieces := by
  by_cases h : pieces = []
  · rw [h, write, write, if_pos rfl, List.append_nil]
  · exact write_cons_of_ne_nil true piece h

theorem length_write_true (pieces : List PaddedPiece) :
    (write true pieces).length = (Piece.write (pieces.map toPiece)).length := by
  induction pieces with
  | nil => rfl
  | cons piece pieces ih =>
    rw [write_true_cons, List.map_cons, Piece.write_cons, List.length_append, List.length_append,
      length_bytes, ih]

/-- What stands behind the first payload: its padding, which may only be missing at the end, and the
other chunks. -/
theorem exists_write_cons (padsLast : Bool) (piece : PaddedPiece) (pieces : List PaddedPiece) :
    ∃ back, write padsLast (piece :: pieces) = piece.unpadded ++ back ∧
      back.drop (piece.payload.length % 2) = write padsLast pieces ∧
      (pieces ≠ [] → piece.payload.length % 2 ≤ back.length) := by
  have hdrop (rest : Bytes) : (List.replicate (piece.payload.length % 2) piece.pad ++ rest).drop
      (piece.payload.length % 2) = rest := List.drop_left' List.length_replicate
  by_cases h : pieces = []
  · subst h
    cases padsLast with
    | true => exact ⟨List.replicate _ piece.pad ++ [], by rw [List.append_nil]; rfl, hdrop [],
        absurd rfl⟩
    | false => exact ⟨[], (List.append_nil _).symm, List.drop_nil, absurd rfl⟩
  · refine ⟨List.replicate (piece.payload.length % 2) piece.pad ++ write padsLast pieces, ?_,
      hdrop _, fun _ => ?_⟩
    · rw [write_cons_of_ne_nil padsLast piece h, bytes, List.append_assoc]
    · rw [List.length_append, List.length_replicate]
      exact Nat.le_add_right _ _

/-- A piece stands behind all padded pieces in front of it. -/
theorem exists_write_append (padsLast : Bool) (before after : List PaddedPiece)
    (piece : PaddedPiece) :
    ∃ back, write padsLast (before ++ piece :: after) =
      write true before ++ (piece.unpadded ++ back) := by
  induction before with
  | nil =>
    obtain ⟨back, hback, -⟩ := exists_write_cons padsLast piece after
    exact ⟨back, hback⟩
  | cons first before ih =>
    obtain ⟨back, hback⟩ := ih
    refine ⟨back, ?_⟩
    rw [List.cons_append, write_cons_of_ne_nil padsLast first
      (List.append_ne_nil_of_right_ne_nil _ (List.cons_ne_nil _ _)), hback, write_true_cons,
      List.append_assoc]

theorem length_chunks (offset : Nat) (pieces : List PaddedPiece) :
    (chunks offset pieces).length = pieces.length := by
  rw [← List.length_map Chunk.kind, chunks, Piece.map_kind_chunks, List.length_map,
    List.length_map]

/-- The chunk that tells of a piece begins where the padded pieces in front of it end. -/
theorem getElem?_chunks (offset : Nat) (before after : List PaddedPiece) (piece : PaddedPiece) :
    (chunks offset (before ++ piece :: after))[before.length]? =
      some ⟨piece.kind, offset + (write true before).length, piece.payload⟩ := by
  have hlength := length_chunks offset before
  rw [chunks] at hlength
  rw [chunks, List.map_append, Piece.chunks_append, List.map_cons, Piece.chunks, length_write_true,
    ← hlength, List.getElem?_append_right (Nat.le_refl _), Nat.sub_self, List.getElem?_cons_zero]

/-- Written chunks are a run of chunks, whether or not the last one is padded. -/
theorem tiles_chunks (padsLast : Bool) (offset : Nat)
    (h : ∀ piece ∈ pieces, piece.payload.length < 2 ^ 32) :
    Tiles offset (write padsLast pieces) (chunks offset pieces) := by
  induction pieces generalizing offset with
  | nil => exact .nil offset
  | cons piece pieces ih =>
    obtain ⟨hpiece, hpieces⟩ := List.forall_mem_cons.mp h
    obtain ⟨back, hback, hdrop, hlong⟩ := exists_write_cons padsLast piece pieces
    rw [hback, unpadded, List.append_assoc]
    refine Tiles.cons_drop ?_ hpiece
    rw [hdrop]
    by_cases hnil : pieces = []
    · subst hnil
      exact .nil _
    · have hnext : offset + piece.toPiece.bytes.length =
          offset + 8 + piece.payload.length + min (piece.payload.length % 2) back.length := by
        rw [Piece.length_bytes, Nat.min_eq_left (hlong hnil), ← Nat.add_assoc, ← Nat.add_assoc]
      rw [← hnext]
      exact ih _ hpieces

end PaddedPiece

/-- Chunks that are padded with zeros. -/
theorem Piece.write_eq (pieces : List Piece) :
    write pieces = PaddedPiece.write true (pieces.map fun piece => ⟨piece, 0⟩) := by
  induction pieces with
  | nil => rfl
  | cons piece pieces ih =>
    rw [write_cons, List.map_cons, PaddedPiece.write_true_cons, ih]
    simp only [bytes, PaddedPiece.bytes, PaddedPiece.unpadded, List.append_assoc]

/-- Written chunks are a run of chunks. -/
theorem Piece.tiles_chunks {pieces : List Piece} (offset : Nat)
    (h : ∀ piece ∈ pieces, piece.payload.length < 2 ^ 32) :
    Tiles offset (write pieces) (chunks offset pieces) := by
  have hpieces : (pieces.map fun piece => (⟨piece, 0⟩ : PaddedPiece)).map PaddedPiece.toPiece =
      pieces := by
    rw [List.map_map]
    exact List.map_id pieces
  have hchunks : chunks offset pieces =
      PaddedPiece.chunks offset (pieces.map fun piece => ⟨piece, 0⟩) := by
    rw [PaddedPiece.chunks, hpieces]
  rw [write_eq, hchunks]
  exact PaddedPiece.tiles_chunks true offset (List.forall_mem_map.mpr h)

/-! ### Walking over what was written -/

/-- The codes that a WebP file gives a meaning to. -/
def ChunkKind.codes : List FourCC :=
  [.alph, .anim, .anmf, .exif, .iccp, .vp8, .vp8l, .vp8x, .xmp]

/-- A code that has a meaning is never read as an unknown one. -/
theorem ChunkKind.not_mem_codes_of_ofFourCC_eq {code name : FourCC}
    (h : ofFourCC code = .unknown name) : name ∉ codes := by
  unfold ofFourCC at h
  split_ifs at h
  obtain rfl := ChunkKind.unknown.inj h
  simp only [codes, List.mem_cons, List.not_mem_nil, or_false, not_or]
  exact ⟨‹_›, ‹_›, ‹_›, ‹_›, ‹_›, ‹_›, ‹_›, ‹_›, ‹_›⟩

/-- The chunk tells what was written at an offset of a file. -/
structure Piece.IsFoundAs (data : Bytes) (offset : Nat) (piece : Piece) (chunk : Chunk) :
    Prop where
  name_eq : chunk.kind.name = piece.name
  known : ∀ name, chunk.kind = .unknown name → name ∉ ChunkKind.codes
  offset_eq : chunk.offset = offset
  header_eq : data.slice ⟨offset, offset + 8⟩ =
    (ChunkHeader.mk piece.name piece.payload.length).encode
  payload_eq : chunk.payload = piece.payload
  slice_payloadSpan : data.slice chunk.payloadSpan = piece.payload

/-- A walker tells of the pieces that were written in a file from an offset on, one chunk for each
call, and then of nothing for ever. -/
structure Walker.Finds (data : Bytes) (offset : Nat) (pieces : List PaddedPiece)
    (chunks : List Chunk) (walker : Walker) : Prop where
  length_eq : chunks.length = pieces.length
  /-- The calls behind the last chunk are answered without one. -/
  answer_eq : ∀ n, walker.answer n = .ok chunks[n]?
  items_eq : walker.items = chunks.map .ok
  /-- A chunk is found where the padded pieces in front of it end. -/
  isFoundAs : ∀ (n : Nat) (piece : PaddedPiece) (chunk : Chunk),
    pieces[n]? = some piece → chunks[n]? = some chunk →
    piece.IsFoundAs data (offset + (PaddedPiece.write true (pieces.take n)).length) chunk

theorem Walker.over_of_append (front middle back : Bytes) :
    Walker.over (front ++ (middle ++ back)) ⟨front.length, front.length + middle.length⟩ =
      ⟨front.length, middle⟩ := by
  have hstop : min (front.length + middle.length) (front ++ (middle ++ back)).length =
      front.length + middle.length := by
    rw [List.length_append, List.length_append]
    omega
  rw [Walker.over]
  dsimp only
  rw [hstop, Nat.min_eq_left (Nat.le_add_right _ _), Bytes.slice_of_append]

/-- Each chunk of a written range tells of its piece. -/
theorem PaddedPiece.isFoundAs_chunks (padsLast : Bool) (front back : Bytes)
    (before after : List PaddedPiece) (piece : PaddedPiece) :
    piece.IsFoundAs (front ++ (write padsLast (before ++ piece :: after) ++ back))
      (front.length + (write true before).length)
      ⟨piece.kind, front.length + (write true before).length, piece.payload⟩ := by
  obtain ⟨more, hmore⟩ := exists_write_append padsLast before after piece
  have hcut : front ++ (write padsLast (before ++ piece :: after) ++ back) =
      (front ++ write true before) ++
        ((ChunkHeader.mk piece.name piece.payload.length).encode ++
          (piece.payload ++ (more ++ back))) := by
    rw [hmore, unpadded]
    simp only [List.append_assoc]
  have hheader := Bytes.slice_of_append (front ++ write true before)
    (ChunkHeader.mk piece.name piece.payload.length).encode (piece.payload ++ (more ++ back))
  have hpayload := Bytes.slice_of_append
    ((front ++ write true before) ++ (ChunkHeader.mk piece.name piece.payload.length).encode)
    piece.payload (more ++ back)
  rw [List.append_assoc (front ++ write true before)] at hpayload
  rw [← hcut] at hheader hpayload
  rw [List.length_append, ChunkHeader.length_encode] at hheader
  rw [List.length_append, List.length_append, ChunkHeader.length_encode] at hpayload
  exact
    { name_eq := ChunkKind.name_ofFourCC piece.name
      known := fun name => ChunkKind.not_mem_codes_of_ofFourCC_eq
      offset_eq := rfl
      header_eq := hheader
      payload_eq := rfl
      slice_payloadSpan := hpayload }

/-- **Walking undoes writing.** A walker over the range of written chunks finds them, whatever pads
them, whatever stands around the range, and whether or not the last padding is in it. -/
theorem Walker.finds_write (padsLast : Bool) (front back : Bytes) (pieces : List PaddedPiece)
    (h : ∀ piece ∈ pieces, piece.payload.length ≤ 2 ^ 32 - 9) :
    (Walker.over (front ++ (PaddedPiece.write padsLast pieces ++ back))
        ⟨front.length, front.length + (PaddedPiece.write padsLast pieces).length⟩).Finds
      (front ++ (PaddedPiece.write padsLast pieces ++ back)) front.length pieces
      (PaddedPiece.chunks front.length pieces) := by
  have htiles := PaddedPiece.tiles_chunks padsLast front.length
    fun piece hpiece => Nat.lt_of_le_of_lt (h piece hpiece) (by decide)
  have hmax : ∀ chunk ∈ PaddedPiece.chunks front.length pieces,
      chunk.payload.length ≤ maxPayloadLength := by
    intro chunk hchunk
    have hmem := List.mem_map_of_mem (f := Chunk.payload) hchunk
    rw [PaddedPiece.chunks, Piece.map_payload_chunks, List.map_map] at hmem
    obtain ⟨piece, hpiece, heq⟩ := List.mem_map.mp hmem
    rw [← heq]
    exact h piece hpiece
  have hwalk := Walker.walk_of_tiles_of_le htiles hmax
  rw [Walker.over_of_append]
  refine ⟨PaddedPiece.length_chunks _ _, fun n => ?_, ?_, fun n piece chunk hpiece hchunk => ?_⟩
  · rw [answer_eq, hwalk, Walk.answer]
    cases (PaddedPiece.chunks front.length pieces)[n]? with
    | none => rfl
    | some chunk => rfl
  · rw [items_eq, hwalk, Option.toList_none, List.map_nil, List.append_nil]
  · obtain ⟨hlt, hget⟩ := List.getElem?_eq_some_iff.mp hpiece
    have hpieces : pieces = pieces.take n ++ piece :: pieces.drop (n + 1) := by
      rw [← hget, ← List.drop_eq_getElem_cons hlt, List.take_append_drop]
    have hlength : (pieces.take n).length = n := List.length_take_of_le (Nat.le_of_lt hlt)
    have hfound := PaddedPiece.isFoundAs_chunks padsLast front back (pieces.take n)
      (pieces.drop (n + 1)) piece
    have hget :=
      PaddedPiece.getElem?_chunks front.length (pieces.take n) (pieces.drop (n + 1)) piece
    rw [← hpieces, hlength, hchunk] at hget
    rw [← hpieces] at hfound
    rwa [Option.some.inj hget]

/-- Two payloads of odd length, the second one with its padding behind the range. -/
theorem Walker.finds_write_two :
    (Walker.over
        ([0xaa] ++ (FourCC.xmp.bytes ++
          [3, 0, 0, 0, 1, 2, 3, 0x55, 97, 98, 99, 100, 1, 0, 0, 0, 9] ++ [0xbb])) ⟨1, 22⟩).Finds
      ([0xaa] ++ (FourCC.xmp.bytes ++
        [3, 0, 0, 0, 1, 2, 3, 0x55, 97, 98, 99, 100, 1, 0, 0, 0, 9] ++ [0xbb])) 1
      [⟨⟨.xmp, [1, 2, 3]⟩, 0x55⟩, ⟨⟨⟨97, 98, 99, 100⟩, [9]⟩, 0xcc⟩]
      [⟨.xmp, 1, [1, 2, 3]⟩, ⟨.unknown ⟨97, 98, 99, 100⟩, 13, [9]⟩] :=
  Walker.finds_write false [0xaa] [0xbb]
    [⟨⟨.xmp, [1, 2, 3]⟩, 0x55⟩, ⟨⟨⟨97, 98, 99, 100⟩, [9]⟩, 0xcc⟩] (by simp)

end WebP
