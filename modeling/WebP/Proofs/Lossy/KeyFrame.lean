import WebP.Lossy.KeyFrame
import WebP.Proofs.Bytes.Slices
import WebP.Proofs.Cursor.Effect

/-!
# The ten bytes of a key frame

The header of a lossy key frame packs its fields into a frame tag of 24 bits and two words of 16
bits. Every bit of them is either a field or fixed, so that a header that was read can be written
again as the same bytes. Which bytes are read is said of the bytes alone.

## Main definitions

* `WebP.KeyFrameHeader.decode`, `WebP.KeyFrameHeader.encode`: the fields in the first ten bytes, and
  the bytes of given fields.
* `WebP.KeyFrameHeader.Begins`: bytes that begin a visible key frame.
* `WebP.KeyFrameHeader.IsStorable`: fields that can be written.

## Main results

* `WebP.KeyFrameHeader.effect_read_eq_ok_iff`: which bytes are read, and as what.
* `WebP.KeyFrameHeader.encode_decode`, `WebP.KeyFrameHeader.IsStorable.decode_encode`: writing and
  reading are inverse to each other.
* `WebP.KeyFrameHeader.readsExactly`: all of it, for every cursor.
-/

namespace WebP.KeyFrameHeader

open Cursor Cursor.Read

/-! ### Reading the bytes -/

/-- The frame tag in the first three bytes. -/
def tag (bytes : Bytes) : Nat := (bytes.slice ⟨0, 3⟩).natLE

/-- The width with the horizontal scale above it. -/
def packedWidth (bytes : Bytes) : Nat := (bytes.slice ⟨6, 8⟩).natLE

/-- The height with the vertical scale above it. -/
def packedHeight (bytes : Bytes) : Nat := (bytes.slice ⟨8, 10⟩).natLE

/-- The fields in the first ten bytes. -/
def decode (bytes : Bytes) : KeyFrameHeader where
  profile := tag bytes / 2 % 8
  partitionLength := tag bytes / 32
  size := ⟨packedWidth bytes % 0x4000, packedHeight bytes % 0x4000⟩
  horizontalScale := packedWidth bytes / 0x4000
  verticalScale := packedHeight bytes / 0x4000

/-- The bytes begin with the header of a visible key frame, and its first partition ends before they
do. -/
structure Begins (bytes : Bytes) : Prop where
  length_le : 10 ≤ bytes.length
  isKeyFrame : tag bytes % 2 = 0
  profile_le : tag bytes / 2 % 8 ≤ 3
  isShown : tag bytes / 16 % 2 = 1
  startCode_eq : bytes.slice ⟨3, 6⟩ = [0x9d, 0x01, 0x2a]
  width_ne : packedWidth bytes % 2 ^ 14 ≠ 0
  height_ne : packedHeight bytes % 2 ^ 14 ≠ 0
  partition_lt : tag bytes / 32 < bytes.length - 10

variable {bytes : Bytes} {header : KeyFrameHeader} {cursor after : Cursor}

/-- The bytes of the header, cut into its fields. -/
theorem take_eq_slices (bytes : Bytes) :
    bytes.take 10 = bytes.slice ⟨0, 3⟩ ++ (bytes.slice ⟨3, 6⟩ ++
      (bytes.slice ⟨6, 8⟩ ++ bytes.slice ⟨8, 10⟩)) := by
  rw [bytes.slice_append_slice (by decide) (by decide),
    bytes.slice_append_slice (by decide) (by decide),
    bytes.slice_append_slice (by decide) (by decide), Bytes.slice_zero]

/-- **Which headers are read.** The bytes in front of the cursor decide whether a header is read and
which it is, and the cursor moves past ten of them. -/
theorem effect_read_eq_ok_iff :
    read.effect cursor = (.ok header, after) ↔ Begins cursor.rest ∧ header = decode cursor.rest ∧
      after = { cursor with position := cursor.position + 10 } := by
  have hremaining := remaining_eq_length cursor
  rw [read, effect_remaining_bind, effect_ensure_bind_eq_ok_iff]
  by_cases hlong : encodedLength ≤ cursor.remaining
  · rw [and_iff_right hlong]
    rw [hremaining, encodedLength] at hlong
    have htag : (cursor.rest.slice ⟨0, 3⟩).length = 3 := Bytes.length_slice_of_le (by omega)
    have hcode : (cursor.rest.slice ⟨3, 6⟩).length = 3 := Bytes.length_slice_of_le (by omega)
    have hwidth : (cursor.rest.slice ⟨6, 8⟩).length = 2 := Bytes.length_slice_of_le (by omega)
    have hheight : (cursor.rest.slice ⟨8, 10⟩).length = 2 := Bytes.length_slice_of_le (by omega)
    have hrest := (List.take_append_drop 10 cursor.rest).symm
    rw [take_eq_slices, List.append_assoc, List.append_assoc, List.append_assoc] at hrest
    have hrest₃ := rest_moved hrest htag
    have hrest₆ := rest_moved hrest₃ hcode
    have hrest₈ := rest_moved hrest₆ hwidth
    have hrest₁₀ := rest_moved hrest₈ hheight
    have hleft := (remaining_eq_length _).trans (congrArg List.length hrest₁₀)
    rw [List.length_drop] at hleft
    rw [effect_nat_bind hrest htag]
    dsimp only
    rw [effect_ensure_bind_eq_ok_iff, effect_ensure_bind_eq_ok_iff, effect_ensure_bind_eq_ok_iff,
      effect_bytes_bind hrest₃ hcode, effect_ensure_bind_eq_ok_iff, effect_nat_bind hrest₆ hwidth,
      effect_nat_bind hrest₈ hheight, effect_remaining_bind, hleft, effect_ensure_bind_eq_ok_iff]
    dsimp only
    rw [effect_ensure_bind_eq_ok_iff, effect_ensure_bind_eq_ok_iff, effect_pure, Prod.mk.injEq,
      Except.ok.injEq]
    constructor
    · rintro ⟨hkey, hprofile, hshown, hstart, hpartition, hw, hh, rfl, rfl⟩
      exact ⟨⟨hlong, hkey, hprofile, hshown, hstart, hw, hh, hpartition⟩, rfl, rfl⟩
    · rintro ⟨hbegins, rfl, rfl⟩
      exact ⟨hbegins.isKeyFrame, hbegins.profile_le, hbegins.isShown, hbegins.startCode_eq,
        hbegins.partition_lt, hbegins.width_ne, hbegins.height_ne, rfl, rfl⟩
  · rw [hremaining] at hlong
    rw [hremaining]
    exact iff_of_false (fun h => hlong h.1) fun h => hlong h.1.length_le

/-! ### Writing the bytes -/

/-- Every field fits into its bits, and the image is not empty. -/
structure IsStorable (header : KeyFrameHeader) : Prop where
  profile_le : header.profile ≤ 3
  partitionLength_lt : header.partitionLength < 2 ^ 19
  width_pos : 0 < header.size.width
  width_lt : header.size.width < 2 ^ 14
  height_pos : 0 < header.size.height
  height_lt : header.size.height < 2 ^ 14
  horizontalScale_lt : header.horizontalScale < 4
  verticalScale_lt : header.verticalScale < 4

/-- The ten bytes of a header. In the frame tag the lowest bit, which is set in a frame that is no
key frame, is clear, and the bit of a visible frame is set. -/
def encode (header : KeyFrameHeader) : Bytes :=
  Bytes.ofNatLE 3 (2 * header.profile + 16 + 32 * header.partitionLength) ++ ([0x9d, 0x01, 0x2a] ++
    (Bytes.ofNatLE 2 (header.size.width + 0x4000 * header.horizontalScale) ++
      Bytes.ofNatLE 2 (header.size.height + 0x4000 * header.verticalScale)))

@[simp] theorem length_encode (header : KeyFrameHeader) : header.encode.length = 10 := by
  simp [encode]

/-- No bit of the header is lost. -/
theorem encode_decode (h : Begins bytes) : (decode bytes).encode = bytes.take 10 := by
  have hlong := h.length_le
  have hkey := h.isKeyFrame
  have hshown := h.isShown
  have htag : 2 * (tag bytes / 2 % 8) + 16 + 32 * (tag bytes / 32) = tag bytes := by omega
  rw [take_eq_slices, h.startCode_eq, encode]
  dsimp only [decode]
  rw [htag, Nat.mod_add_div, Nat.mod_add_div, tag, packedWidth, packedHeight,
    Bytes.ofNatLE_slice (rfl : 0 + 3 = 3) (by omega),
    Bytes.ofNatLE_slice (rfl : 6 + 2 = 8) (by omega),
    Bytes.ofNatLE_slice (rfl : 8 + 2 = 10) (by omega)]

theorem isStorable_decode (h : Begins bytes) : (decode bytes).IsStorable := by
  have htag : tag bytes < 256 ^ 3 := Bytes.natLE_slice_lt rfl
  have hwidth : packedWidth bytes < 256 ^ 2 := Bytes.natLE_slice_lt rfl
  have hheight : packedHeight bytes < 256 ^ 2 := Bytes.natLE_slice_lt rfl
  have hw := h.width_ne
  have hh := h.height_ne
  refine ⟨h.profile_le, ?_, ?_, ?_, ?_, ?_, ?_, ?_⟩
  all_goals
    dsimp only [decode]
    omega

/-- The bytes of a header are cut where they were put together. -/
theorem slices_encode (header : KeyFrameHeader) (trailing : Bytes) :
    (header.encode ++ trailing).slice ⟨0, 3⟩ =
        Bytes.ofNatLE 3 (2 * header.profile + 16 + 32 * header.partitionLength) ∧
      (header.encode ++ trailing).slice ⟨3, 6⟩ = [0x9d, 0x01, 0x2a] ∧
      (header.encode ++ trailing).slice ⟨6, 8⟩ =
        Bytes.ofNatLE 2 (header.size.width + 0x4000 * header.horizontalScale) ∧
      (header.encode ++ trailing).slice ⟨8, 10⟩ =
        Bytes.ofNatLE 2 (header.size.height + 0x4000 * header.verticalScale) := by
  have hlength {start stop : Nat} (hstop : stop ≤ 10) :
      ((header.encode ++ trailing).slice ⟨start, stop⟩).length = stop - start := by
    refine Bytes.length_slice_of_le ?_
    rw [List.length_append, length_encode]
    omega
  have hcut := take_eq_slices (header.encode ++ trailing)
  rw [List.take_left' header.length_encode] at hcut
  obtain ⟨htag, hcut⟩ := List.append_inj hcut (by simp [hlength])
  obtain ⟨hcode, hcut⟩ := List.append_inj hcut (by simp [hlength])
  obtain ⟨hwidth, hheight⟩ := List.append_inj hcut (by simp [hlength])
  exact ⟨htag.symm, hcode.symm, hwidth.symm, hheight.symm⟩

namespace IsStorable

theorem tag_encode (h : header.IsStorable) (trailing : Bytes) :
    tag (header.encode ++ trailing) = 2 * header.profile + 16 + 32 * header.partitionLength := by
  have hprofile := h.profile_le
  have hpartition := h.partitionLength_lt
  rw [tag, (slices_encode header trailing).1, Bytes.natLE_ofNatLE (by omega)]

theorem packedWidth_encode (h : header.IsStorable) (trailing : Bytes) :
    packedWidth (header.encode ++ trailing) =
      header.size.width + 0x4000 * header.horizontalScale := by
  have hwidth := h.width_lt
  have hscale := h.horizontalScale_lt
  rw [packedWidth, (slices_encode header trailing).2.2.1, Bytes.natLE_ofNatLE (by omega)]

theorem packedHeight_encode (h : header.IsStorable) (trailing : Bytes) :
    packedHeight (header.encode ++ trailing) =
      header.size.height + 0x4000 * header.verticalScale := by
  have hheight := h.height_lt
  have hscale := h.verticalScale_lt
  rw [packedHeight, (slices_encode header trailing).2.2.2, Bytes.natLE_ofNatLE (by omega)]

/-- The fields of a header are found in its bytes, whatever follows them. -/
theorem decode_encode (h : header.IsStorable) (trailing : Bytes) :
    decode (header.encode ++ trailing) = header := by
  have hprofile := h.profile_le
  have hwidth := h.width_lt
  have hheight := h.height_lt
  obtain ⟨profile, partitionLength, ⟨width, height⟩, horizontalScale, verticalScale⟩ := header
  rw [decode, h.tag_encode, h.packedWidth_encode, h.packedHeight_encode, mk.injEq, Size.mk.injEq]
  dsimp only at *
  omega

/-- The bytes of a header begin a key frame if its first partition ends before what follows does. -/
theorem begins_encode (h : header.IsStorable) {trailing : Bytes}
    (hfits : header.partitionLength < trailing.length) : Begins (header.encode ++ trailing) := by
  have hprofile := h.profile_le
  have hwidth := h.width_lt
  have hwidth' := h.width_pos
  have hheight := h.height_lt
  have hheight' := h.height_pos
  have hlength : (header.encode ++ trailing).length = 10 + trailing.length := by
    rw [List.length_append, length_encode]
  refine ⟨by omega, ?_, ?_, ?_, (slices_encode header trailing).2.1, ?_, ?_, ?_⟩
  · rw [h.tag_encode]
    omega
  · rw [h.tag_encode]
    omega
  · rw [h.tag_encode]
    omega
  · rw [h.packedWidth_encode]
    omega
  · rw [h.packedHeight_encode]
    omega
  · rw [h.tag_encode, hlength]
    omega

end IsStorable

/-! ### Both directions -/

/-- What is true of the read of a header at a cursor. -/
structure ReadsExactly (cursor : Cursor) : Prop where
  accepts_iff : (∃ header, (read.run cursor).1.result = .ok header) ↔ Begins cursor.rest
  /-- A header that was read is one that can be written, and its bytes are those that were read. -/
  reencodes : ∀ header, (read.run cursor).1.result = .ok header →
    (read.run cursor).2 = { cursor with position := cursor.position + 10 } ∧
      header.IsStorable ∧ header.encode = cursor.rest.take 10
  /-- A header that was written is read back. -/
  reads_encoded : ∀ header trailing, header.IsStorable → header.partitionLength < trailing.length →
    cursor.rest = header.encode ++ trailing → (read.run cursor).1.result = .ok header

/-- **Key frames are read exactly.** This is true at every position of every byte string. -/
theorem readsExactly (cursor : Cursor) : ReadsExactly cursor := by
  have hread {header : KeyFrameHeader} (h : (read.run cursor).1.result = .ok header) :=
    effect_read_eq_ok_iff.mp (Prod.ext h rfl : read.effect cursor = (.ok header, _))
  have hbegins (h : Begins cursor.rest) : (read.run cursor).1.result = .ok (decode cursor.rest) :=
    congrArg Prod.fst (effect_read_eq_ok_iff.mpr ⟨h, rfl, rfl⟩)
  refine ⟨⟨?_, fun h => ⟨_, hbegins h⟩⟩, ?_, ?_⟩
  · rintro ⟨header, h⟩
    exact (hread h).1
  · intro header h
    obtain ⟨hb, rfl, hafter⟩ := hread h
    exact ⟨hafter, isStorable_decode hb, encode_decode hb⟩
  · intro header trailing hstorable hfits hrest
    have hb := hstorable.begins_encode hfits
    rw [← hrest] at hb
    rw [hbegins hb, hrest, hstorable.decode_encode]

end WebP.KeyFrameHeader
