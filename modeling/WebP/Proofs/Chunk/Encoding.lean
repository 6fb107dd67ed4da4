import WebP.Chunk.FixedSize
import WebP.Proofs.Bytes.LittleEndian
import WebP.Proofs.Bytes.Slices
import WebP.Proofs.Cursor.Takes

/-!
# The bytes of headers

A chunk header and each structure of a fixed size is a run of little-endian integers. This file
says which value such bytes stand for and which bytes are written for a value.

## Main definitions

* `WebP.ChunkHeader.encode`: the bytes of a chunk header.
* `WebP.Bytes.lengthAt`: the length that is declared at an offset.
* `WebP.CanvasHeader.decode`, `WebP.AnimationHeader.decode`, `WebP.FrameHeader.decode`: the value
  in the first bytes of a payload, and `encode` for each.

## Main results

* `WebP.ChunkHeader.split?_eq_some_iff`: a header and what follows it are found exactly where
  they were written.
* `result_read` of each structure: every payload that is long enough is read as its `decode`.
* `decode_encode` of each structure: a value in range is decoded from its bytes.
-/

namespace WebP

open Cursor Cursor.Read

namespace ChunkHeader

/-- The code and the length, as a file holds them. -/
def encode (header : ChunkHeader) : Bytes := header.name.bytes ++ .ofNatLE 4 header.length

@[simp] theorem length_encode (header : ChunkHeader) : header.encode.length = 8 := by
  rw [encode, List.length_append, FourCC.length_bytes, Bytes.length_ofNatLE]

/-- **Chunk headers.** A header is found in front of some bytes exactly if its encoding stands
in front of them; a length must fit into 32 bits to be written. -/
theorem split?_eq_some_iff {data rest : Bytes} {header : ChunkHeader} :
    split? data = some (header, rest) ↔
      data = header.encode ++ rest ∧ header.length < 2 ^ 32 := by
  constructor
  · intro h
    unfold split? at h
    split at h
    · rename_i a b c d l₀ l₁ l₂ l₃ tail
      obtain ⟨rfl, rfl⟩ := Prod.mk.inj (Option.some.inj h)
      have hlength := Bytes.ofNatLE_natLE [l₀, l₁, l₂, l₃]
      have hlt : Bytes.natLE [l₀, l₁, l₂, l₃] < 256 ^ 4 := Bytes.natLE_lt _
      rw [List.length_cons, List.length_cons, List.length_cons, List.length_singleton] at hlength
      refine ⟨?_, by simpa using hlt⟩
      rw [encode, hlength]
      rfl
    · cases h
  · rintro ⟨rfl, hlt⟩
    obtain ⟨⟨a, b, c, d⟩, length⟩ := header
    have hread : Bytes.natLE (.ofNatLE 4 length) = length :=
      Bytes.natLE_ofNatLE (by simpa using hlt)
    simp only [Bytes.ofNatLE] at hread
    simp only [encode, FourCC.bytes, Bytes.ofNatLE, List.cons_append, List.nil_append, split?,
      hread]

theorem takes_read {header : ChunkHeader} (h : header.length < 2 ^ 32) :
    Takes read header.encode header := by
  intro cursor tail hc
  have hs := split?_eq_some_iff.mpr ⟨hc, h⟩
  simp only [run, read, ofStep, hs, length_encode]
  exact ⟨rfl, rfl⟩

end ChunkHeader

namespace Bytes

/-- The length that is declared by the chunk header at an offset. -/
def lengthAt (data : Bytes) (offset : Nat) : Nat := (data.slice ⟨offset + 4, offset + 8⟩).natLE

theorem lengthAt_encode (front back : Bytes) {header : ChunkHeader}
    (hlt : header.length < 2 ^ 32) :
    (front ++ (header.encode ++ back)).lengthAt front.length = header.length := by
  have hslice := slice_of_append (front ++ header.name.bytes) (.ofNatLE 4 header.length) back
  rw [List.length_append, FourCC.length_bytes, length_ofNatLE] at hslice
  rw [lengthAt, ChunkHeader.encode, List.append_assoc, ← List.append_assoc front, hslice,
    natLE_ofNatLE (by omega)]

/-- A chunk header that stands in the file is written there. -/
theorem slice_header {data : Bytes} {offset : Nat} {name : FourCC}
    (hname : data.slice ⟨offset, offset + 4⟩ = name.bytes) (hlong : offset + 8 ≤ data.length) :
    data.slice ⟨offset, offset + 8⟩ = (ChunkHeader.mk name (data.lengthAt offset)).encode := by
  have hlength : (data.slice ⟨offset + 4, offset + 8⟩).length = 4 := by
    rw [length_slice_of_le hlong]
    omega
  have hwritten := ofNatLE_natLE (data.slice ⟨offset + 4, offset + 8⟩)
  rw [hlength] at hwritten
  rw [ChunkHeader.encode, ← hname, lengthAt, hwritten]
  exact (data.slice_append_slice (by omega) (by omega)).symm

theorem lengthAt_lt {data : Bytes} {offset : Nat} (h : offset + 8 ≤ data.length) :
    data.lengthAt offset < 2 ^ 32 := by
  have hlt := natLE_lt (data.slice ⟨offset + 4, offset + 8⟩)
  rw [length_slice_of_le h] at hlt
  have hcount : offset + 8 - (offset + 4) = 4 := by omega
  rw [hcount] at hlt
  exact hlt

/-- A header with some bytes behind it fills a range exactly if the code and the length stand at the
start of the range. -/
theorem slice_eq_encode_append_iff {data : Bytes} {offset stop : Nat} (hstop : stop ≤ data.length)
    (hle : offset ≤ stop) {header : ChunkHeader} {body : Bytes} (hlt : header.length < 2 ^ 32) :
    data.slice ⟨offset, stop⟩ = header.encode ++ body ↔
      offset + 8 ≤ stop ∧ data.slice ⟨offset, offset + 4⟩ = header.name.bytes ∧
        data.lengthAt offset = header.length ∧ body = data.slice ⟨offset + 8, stop⟩ := by
  constructor
  · intro h
    have hlength := congrArg List.length h
    rw [length_slice_of_le hstop, List.length_append, ChunkHeader.length_encode] at hlength
    have hwhole : offset + 8 ≤ stop := by omega
    have hname := data.take_slice (by omega : offset + 4 ≤ stop)
    have hcount := data.take_slice (by omega : offset + 4 + 4 ≤ stop)
    rw [← drop_slice] at hcount
    rw [h, ChunkHeader.encode, List.append_assoc] at hname hcount
    rw [List.take_left' (FourCC.length_bytes _)] at hname
    rw [List.drop_left' (FourCC.length_bytes _), List.take_left' (length_ofNatLE _ _)] at hcount
    have hbody := data.drop_slice offset stop 8
    rw [h, List.drop_left' (ChunkHeader.length_encode _)] at hbody
    refine ⟨hwhole, hname.symm, ?_, hbody⟩
    rw [lengthAt, ← hcount]
    exact natLE_ofNatLE (by omega)
  · rintro ⟨hwhole, hname, hcount, rfl⟩
    have hheader := slice_header hname (by omega)
    rw [hcount] at hheader
    rw [← hheader]
    exact (data.slice_append_slice (by omega) hwhole).symm

end Bytes

/-- Each dimension is at least one and, less one, fits into 24 bits. -/
structure Size.IsStorable (size : Size) : Prop where
  width_pos : 0 < size.width
  width_le : size.width ≤ 2 ^ 24
  height_pos : 0 < size.height
  height_le : size.height ≤ 2 ^ 24

/-! ### The extended header -/

namespace CanvasHeader

/-- The extended header in the first bytes of a payload. -/
def decode (payload : Bytes) : CanvasHeader where
  flags := .ofBits (payload.slice ⟨0, 4⟩).natLE
  canvas := ⟨(payload.slice ⟨4, 7⟩).natLE + 1, (payload.slice ⟨7, 10⟩).natLE + 1⟩

/-- The payload of an extended header. -/
def encode (header : CanvasHeader) : Bytes :=
  .ofNatLE 4 header.flags.bits ++
    (.ofNatLE 3 (header.canvas.width - 1) ++ .ofNatLE 3 (header.canvas.height - 1))

@[simp] theorem length_encode (header : CanvasHeader) : header.encode.length = encodedLength := by
  simp [encode, encodedLength]

/-- The bytes of a header, cut into its fields. -/
theorem take_eq_slices (payload : Bytes) :
    payload.take encodedLength =
      payload.slice ⟨0, 4⟩ ++ (payload.slice ⟨4, 7⟩ ++ payload.slice ⟨7, 10⟩) := by
  rw [payload.slice_append_slice (by decide) (by decide),
    payload.slice_append_slice (by decide) (by decide), Bytes.slice_zero, encodedLength]

/-- The first bytes of a payload are taken, whatever they are. -/
theorem takes_decode {payload : Bytes} (h : encodedLength ≤ payload.length) :
    Takes read (payload.take encodedLength) (decode payload) := by
  rw [encodedLength] at h
  have flags : (payload.slice ⟨0, 4⟩).length = 4 := Bytes.length_slice_of_le (by omega)
  have width : (payload.slice ⟨4, 7⟩).length = 3 := Bytes.length_slice_of_le (by omega)
  have height : (payload.slice ⟨7, 10⟩).length = 3 := Bytes.length_slice_of_le (by omega)
  rw [take_eq_slices]
  exact ((takes_canvasFlags flags).field _ _).bind
    (((takes_oneBased width).field _ _).bind
      (((takes_oneBased height).field _ _).map (takes_pure _)))

/-- Every payload that is long enough is read. -/
theorem result_read {payload : Bytes} (h : encodedLength ≤ payload.length) :
    (read.ofStart payload).result = .ok (decode payload) := by
  have hs := (takes_decode h).ofStart (payload.drop encodedLength)
  rwa [List.take_append_drop] at hs

theorem takes_read {header : CanvasHeader} (h : header.canvas.IsStorable) :
    Takes read header.encode header :=
  ((takes_canvasFlags_bits header.flags).field _ _).bind
    (((takes_oneBased_ofNatLE h.width_pos h.width_le).field _ _).bind
      (((takes_oneBased_ofNatLE h.height_pos h.height_le).field _ _).map (takes_pure _)))

/-- A header is decoded from its bytes, whatever follows them. -/
theorem decode_encode {header : CanvasHeader} (h : header.canvas.IsStorable) (back : Bytes) :
    decode (header.encode ++ back) = header := by
  have hlong : encodedLength ≤ (header.encode ++ back).length := by
    rw [List.length_append, length_encode]
    exact Nat.le_add_right _ _
  exact Except.ok.inj ((result_read hlong).symm.trans ((takes_read h).ofStart back))

/-- The canvas of a decoded header can be stored. -/
theorem isStorable_decode (payload : Bytes) : (decode payload).canvas.IsStorable := by
  have hlt (a : Nat) : (payload.slice ⟨a, a + 3⟩).natLE < 256 ^ 3 := Bytes.natLE_slice_lt rfl
  exact ⟨Nat.succ_pos _, hlt 4, Nat.succ_pos _, hlt 7⟩

end CanvasHeader

/-! ### The animation header -/

namespace AnimationHeader

/-- The animation header in the first bytes of a payload. -/
def decode (payload : Bytes) : AnimationHeader where
  background := .ofNat (payload.slice ⟨0, 4⟩).natLE
  loopCount := (payload.slice ⟨4, 6⟩).natLE

/-- The payload of an animation header. -/
def encode (header : AnimationHeader) : Bytes :=
  .ofNatLE 4 header.background.toNat ++ .ofNatLE 2 header.loopCount

@[simp] theorem length_encode (header : AnimationHeader) :
    header.encode.length = encodedLength := by
  simp [encode, encodedLength]

/-- The bytes of a header, cut into its fields. -/
theorem take_eq_slices (payload : Bytes) :
    payload.take encodedLength = payload.slice ⟨0, 4⟩ ++ payload.slice ⟨4, 6⟩ := by
  rw [payload.slice_append_slice (by decide) (by decide), Bytes.slice_zero, encodedLength]

/-- The first bytes of a payload are taken, whatever they are. -/
theorem takes_decode {payload : Bytes} (h : encodedLength ≤ payload.length) :
    Takes read (payload.take encodedLength) (decode payload) := by
  rw [encodedLength] at h
  have background : (payload.slice ⟨0, 4⟩).length = 4 := Bytes.length_slice_of_le (by omega)
  have loopCount : (payload.slice ⟨4, 6⟩).length = 2 := Bytes.length_slice_of_le (by omega)
  rw [take_eq_slices]
  exact ((takes_nat background).field _ _).bind
    (((takes_nat loopCount).field _ _).map (takes_pure _))

/-- Every payload that is long enough is read. -/
theorem result_read {payload : Bytes} (h : encodedLength ≤ payload.length) :
    (read.ofStart payload).result = .ok (decode payload) := by
  have hs := (takes_decode h).ofStart (payload.drop encodedLength)
  rwa [List.take_append_drop] at hs

theorem takes_read {header : AnimationHeader} (h : header.loopCount < 2 ^ 16) :
    Takes read header.encode header := by
  have hcolor : header.background.toNat < 256 ^ 4 := by
    simpa using header.background.toNat_lt
  have hcount : header.loopCount < 256 ^ 2 := by simpa using h
  have hback : UInt32.ofNat header.background.toNat = header.background := UInt32.ofNat_toNat
  have hpure : Takes (pure ⟨.ofNat header.background.toNat, header.loopCount⟩) [] header := by
    rw [hback]
    exact takes_pure _
  exact ((takes_nat_ofNatLE hcolor).field _ _).bind
    (((takes_nat_ofNatLE hcount).field _ _).map hpure)

/-- A header is decoded from its bytes, whatever follows them. -/
theorem decode_encode {header : AnimationHeader} (h : header.loopCount < 2 ^ 16)
    (back : Bytes) : decode (header.encode ++ back) = header := by
  have hlong : encodedLength ≤ (header.encode ++ back).length := by
    rw [List.length_append, length_encode]
    exact Nat.le_add_right _ _
  exact Except.ok.inj ((result_read hlong).symm.trans ((takes_read h).ofStart back))

end AnimationHeader

/-! ### The header of a frame -/

/-- The offsets are even and each field fits into its 24 bits. -/
structure FrameHeader.IsStorable (header : FrameHeader) : Prop where
  size : header.rect.size.IsStorable
  x_even : header.rect.x % 2 = 0
  x_lt : header.rect.x < 2 ^ 25
  y_even : header.rect.y % 2 = 0
  y_lt : header.rect.y < 2 ^ 25
  duration_lt : header.duration < 2 ^ 24

namespace FrameHeader

/-- The header of a frame in the first bytes of a payload. -/
def decode (payload : Bytes) : FrameHeader where
  rect :=
    { x := 2 * (payload.slice ⟨0, 3⟩).natLE
      y := 2 * (payload.slice ⟨3, 6⟩).natLE
      width := (payload.slice ⟨6, 9⟩).natLE + 1
      height := (payload.slice ⟨9, 12⟩).natLE + 1 }
  duration := (payload.slice ⟨12, 15⟩).natLE
  flags := .ofBits (payload.slice ⟨15, 16⟩).natLE

/-- The bytes of the header of a frame. -/
def encode (header : FrameHeader) : Bytes :=
  .ofNatLE 3 (header.rect.x / 2) ++ (.ofNatLE 3 (header.rect.y / 2) ++
    (.ofNatLE 3 (header.rect.width - 1) ++ (.ofNatLE 3 (header.rect.height - 1) ++
      (.ofNatLE 3 header.duration ++ .ofNatLE 1 header.flags.bits))))

@[simp] theorem length_encode (header : FrameHeader) : header.encode.length = encodedLength := by
  simp [encode, encodedLength]

/-- What follows a header is not looked at. -/
theorem decode_append {head : Bytes} (h : head.length = encodedLength) (back : Bytes) :
    decode (head ++ back) = decode head := by
  have hslice {start stop : Nat} (hstop : stop ≤ 16) :
      (head ++ back).slice ⟨start, stop⟩ = head.slice ⟨start, stop⟩ :=
    Bytes.slice_append (Nat.le_trans hstop (Nat.le_of_eq h.symm)) back
  simp only [decode, hslice (by decide : 3 ≤ 16), hslice (by decide : 6 ≤ 16),
    hslice (by decide : 9 ≤ 16), hslice (by decide : 12 ≤ 16), hslice (by decide : 15 ≤ 16),
    hslice (Nat.le_refl 16)]

/-- The bytes of a header, cut into its fields. -/
theorem take_eq_slices (payload : Bytes) :
    payload.take encodedLength = payload.slice ⟨0, 3⟩ ++ (payload.slice ⟨3, 6⟩ ++
      (payload.slice ⟨6, 9⟩ ++ (payload.slice ⟨9, 12⟩ ++
        (payload.slice ⟨12, 15⟩ ++ payload.slice ⟨15, 16⟩)))) := by
  rw [payload.slice_append_slice (by decide) (by decide),
    payload.slice_append_slice (by decide) (by decide),
    payload.slice_append_slice (by decide) (by decide),
    payload.slice_append_slice (by decide) (by decide),
    payload.slice_append_slice (by decide) (by decide), Bytes.slice_zero, encodedLength]

/-- The first bytes of a payload are taken, whatever they are. -/
theorem takes_decode {payload : Bytes} (h : encodedLength ≤ payload.length) :
    Takes read (payload.take encodedLength) (decode payload) := by
  rw [encodedLength] at h
  have three (a : Nat) (ha : a + 3 ≤ 16) : (payload.slice ⟨a, a + 3⟩).length = 3 := by
    rw [Bytes.length_slice_of_le (by omega)]
    omega
  have flags : (payload.slice ⟨15, 16⟩).length = 1 := Bytes.length_slice_of_le (by omega)
  rw [take_eq_slices]
  exact ((takes_nat (three 0 (by decide))).field _ _).bind
    (((takes_nat (three 3 (by decide))).field _ _).bind
      (((takes_oneBased (three 6 (by decide))).field _ _).bind
        (((takes_oneBased (three 9 (by decide))).field _ _).bind
          (((takes_nat (three 12 (by decide))).field _ _).bind
            (((takes_frameFlags flags).field _ _).map (takes_pure _))))))

/-- Every payload that is long enough is read. -/
theorem result_read {payload : Bytes} (h : encodedLength ≤ payload.length) :
    (read.ofStart payload).result = .ok (decode payload) := by
  have hs := (takes_decode h).ofStart (payload.drop encodedLength)
  rwa [List.take_append_drop] at hs

theorem takes_read {header : FrameHeader} (h : header.IsStorable) :
    Takes read header.encode header := by
  have hx : header.rect.x / 2 < 256 ^ 3 := by
    have := h.x_lt
    omega
  have hy : header.rect.y / 2 < 256 ^ 3 := by
    have := h.y_lt
    omega
  have hd : header.duration < 256 ^ 3 := by simpa using h.duration_lt
  have hpure : Takes (pure ⟨⟨2 * (header.rect.x / 2), 2 * (header.rect.y / 2),
      header.rect.width, header.rect.height⟩, header.duration, header.flags⟩) [] header := by
    rw [Nat.mul_div_cancel' (Nat.dvd_of_mod_eq_zero h.x_even),
      Nat.mul_div_cancel' (Nat.dvd_of_mod_eq_zero h.y_even)]
    exact takes_pure _
  exact ((takes_nat_ofNatLE hx).field _ _).bind
    (((takes_nat_ofNatLE hy).field _ _).bind
      (((takes_oneBased_ofNatLE h.size.width_pos h.size.width_le).field _ _).bind
        (((takes_oneBased_ofNatLE h.size.height_pos h.size.height_le).field _ _).bind
          (((takes_nat_ofNatLE hd).field _ _).bind
            (((takes_frameFlags_bits header.flags).field _ _).map hpure)))))

/-- A header is decoded from its bytes, whatever follows them. -/
theorem decode_encode {header : FrameHeader} (h : header.IsStorable) (back : Bytes) :
    decode (header.encode ++ back) = header := by
  have hlong : encodedLength ≤ (header.encode ++ back).length := by
    rw [List.length_append, length_encode]
    exact Nat.le_add_right _ _
  exact Except.ok.inj ((result_read hlong).symm.trans ((takes_read h).ofStart back))

end FrameHeader

end WebP
