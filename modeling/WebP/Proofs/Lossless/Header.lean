import WebP.Proofs.Cursor.Effect
import WebP.Proofs.Lossless.Chain

/-!
# The bits of the header of a lossless image

The header of a lossless image is a signature byte and a run of bits that ends where the chain of
transforms does. It is read from its bits, whatever fills up the last byte and follows it, and a
header that was read can be written again as the same bits. With a signature and a version that
are right, only the chain can be at fault.

## Main definitions

* `WebP.LosslessHeader.encode`: the bytes of given fields.
* `WebP.LosslessHeader.IsStorable`: fields that can be written.
* `WebP.LosslessHeader.HasFixedFields`: bytes with a signature and a version that are right.

## Main results

* `WebP.LosslessHeader.effect_read_eq_ok_iff`: which headers are read, and how far.
* `WebP.LosslessHeader.failsWith_read_iff`: why a header with the fixed fields is refused.
* `WebP.LosslessHeader.decodesExactly`: all of it, for every cursor.
-/

namespace WebP.LosslessHeader

open BitStream (Takes takes_field takes_flag takes_pure)
open Chain (order bitsAt)
open Cursor Cursor.Read

/-! ### Writing the fields -/

/-- The fields of a fixed width, written. -/
def fieldBits (size : Size) (alphaIsUsed : Bool) (version : Nat) : List Bool :=
  order.digits 14 (size.width - 1) ++ (order.digits 14 (size.height - 1) ++
    ([alphaIsUsed] ++ order.digits 3 version))

/-- The dimensions that can be written. -/
structure IsStorableSize (size : Size) : Prop where
  width_pos : 1 ≤ size.width
  width_le : size.width ≤ 16384
  height_pos : 1 ≤ size.height
  height_le : size.height ≤ 16384

/-- The fields are numbers that can be written, and the chain is one that can be. -/
structure IsStorable (header : LosslessHeader) : Prop where
  size : IsStorableSize header.size
  transforms : Chain.IsValid header.transforms

/-- The bits of a header with version zero. -/
def bits (header : LosslessHeader) : List Bool :=
  fieldBits header.size header.alphaIsUsed 0 ++ Chain.encode header.transforms

/-- The number of bytes that the bits of a header touch. -/
def bodyLength (header : LosslessHeader) : Nat :=
  (32 + (Chain.encode header.transforms).length + 7) / 8

/-- The bits that fill up the last byte. -/
def Fills (header : LosslessHeader) (filler : List Bool) : Prop :=
  header.bits.length + filler.length = 8 * header.bodyLength

/-- The signature and the bytes of a header, the last of which is filled up. -/
def encode (header : LosslessHeader) (filler : List Bool) : Bytes :=
  0x2f :: order.pack header.bodyLength (header.bits ++ filler)

variable {header : LosslessHeader} {size : Size} {alphaIsUsed : Bool} {version : Nat}
  {byteLength : Nat} {cursor after : Cursor} {body behind trailing : Bytes}
  {chainBits filler : List Bool}

@[simp] theorem length_encode (header : LosslessHeader) (filler : List Bool) :
    (header.encode filler).length = 1 + header.bodyLength := by
  rw [encode, List.length_cons, BitOrder.length_pack, Nat.add_comm]

/-- Behind the 32 bits of the fields a chain of nine bits begins. -/
example : encode ⟨⟨4, 4⟩, false, [.subtractGreen, .crossColor 4]⟩ (List.replicate 7 false) =
    [0x2f, 0x03, 0xc0, 0x00, 0x00, 0x1d, 0x00] := by decide

@[simp] theorem length_fieldBits (size : Size) (alphaIsUsed : Bool) (version : Nat) :
    (fieldBits size alphaIsUsed version).length = 32 := by
  simp [fieldBits]

theorem length_of_lowBits_eq
    (hbits : body.lowBits = fieldBits size alphaIsUsed version ++ chainBits) :
    8 * body.length = 32 + chainBits.length := by
  rw [← Bytes.length_lowBits, hbits, List.length_append, length_fieldBits]

/-- The fields of a fixed width are read back. -/
theorem takes_readFields (hsize : IsStorableSize size) (hversion : version < 8) :
    Takes order readFields (fieldBits size alphaIsUsed version) (size, alphaIsUsed, version) := by
  obtain ⟨hw, hw', hh, hh'⟩ := hsize
  refine (takes_field (by decide) (by omega)).bind ((takes_field (by decide) (by omega)).bind
    ((takes_flag _).bind ((takes_field (by decide) hversion).map ?_)))
  rw [Nat.sub_add_cancel hw, Nat.sub_add_cancel hh]
  exact takes_pure _

/-- All bits of the length of the fields are fields. -/
theorem exists_fieldBits_eq {front : List Bool} (h : front.length = 32) :
    ∃ size alphaIsUsed version, IsStorableSize size ∧ version < 8 ∧
      fieldBits size alphaIsUsed version = front := by
  let behindWidth := front.drop 14
  let behindHeight := behindWidth.drop 14
  have hwidth : (front.take 14).length = 14 := by simp [h]
  have hheight : (behindWidth.take 14).length = 14 := by simp [behindWidth, h]
  have halpha : (behindHeight.take 1).length = 1 := by simp [behindHeight, behindWidth, h]
  have hversion : (behindHeight.drop 1).length = 3 := by simp [behindHeight, behindWidth, h]
  obtain ⟨w, hw, hwidth⟩ := order.exists_digits_eq hwidth
  obtain ⟨h', hh, hheight⟩ := order.exists_digits_eq hheight
  obtain ⟨alphaIsUsed, halpha⟩ := List.length_eq_one_iff.mp halpha
  obtain ⟨version, hlt, hversion⟩ := order.exists_digits_eq hversion
  refine ⟨⟨w + 1, h' + 1⟩, alphaIsUsed, version, ⟨by simp, hw, by simp, hh⟩, hlt, ?_⟩
  rw [fieldBits, Nat.add_sub_cancel, Nat.add_sub_cancel, hwidth, hheight, hversion, ← halpha,
    List.take_append_drop, List.take_append_drop, List.take_append_drop]

/-- The fields of a fixed width in the first four bytes. -/
theorem exists_fields (b₁ b₂ b₃ b₄ : UInt8) (behind : Bytes) :
    ∃ size alphaIsUsed, IsStorableSize size ∧ Bytes.lowBits (b₁ :: b₂ :: b₃ :: b₄ :: behind) =
      fieldBits size alphaIsUsed (b₄.toNat / 32) ++ behind.lowBits := by
  obtain ⟨size, alphaIsUsed, version, hsize, hlt, hfront⟩ :=
    exists_fieldBits_eq (Bytes.length_lowBits [b₁, b₂, b₃, b₄])
  have hbits : Bytes.lowBits (b₁ :: b₂ :: b₃ :: b₄ :: behind) =
      fieldBits size alphaIsUsed version ++ behind.lowBits := by
    rw [hfront]
    exact @List.flatMap_append _ _ [b₁, b₂, b₃, b₄] behind _
  obtain ⟨fields, hfields, hversion⟩ := readFields_ofBytes b₁ b₂ b₃ b₄ behind
  have htaken : readFields ⟨order, behind.length + 4, 0, fieldBits size alphaIsUsed version ++ _⟩ =
      .ok ((size, alphaIsUsed, version), _) :=
    takes_readFields hsize hlt (behind.length + 4) 0 behind.lowBits
  rw [← hbits] at htaken
  obtain ⟨rfl, -⟩ := Prod.mk.inj (Except.ok.inj (htaken.symm.trans hfields))
  rw [← hversion]
  exact ⟨size, alphaIsUsed, hsize, hbits⟩

/-! ### Reading the fields -/

/-- The signature and the version are right, and `behind` is what stands behind the fields of a
fixed width. The version is in the three highest bits of the last byte of these fields. -/
def HasFixedFields (bytes behind : Bytes) : Prop :=
  ∃ b₁ b₂ b₃ b₄ : UInt8, bytes = 0x2f :: b₁ :: b₂ :: b₃ :: b₄ :: behind ∧ b₄.toNat / 32 = 0

/-- What follows the fields of a fixed width. -/
def readChain (size : Size) (alphaIsUsed : Bool) (stream : BitStream) :
    Cursor.Read LosslessHeader := do
  let (transforms, stream) ← .lift ((Chain.ofStream stream).outcome.noting (.readingChunk .vp8l))
  let _ ← .bytes stream.bytesConsumed
  return { size, alphaIsUsed, transforms }

/-- The bits behind the first byte of a header are its fields. -/
theorem effect_read_cons {b₀ : UInt8} (hrest : cursor.rest = b₀ :: body)
    (hbits : body.lowBits = fieldBits size alphaIsUsed version ++ chainBits)
    (hsize : IsStorableSize size) (hversion : version < 8) :
    read.effect cursor =
      let moved := { cursor with position := cursor.position + 1 }
      if b₀.toNat = signature then
        if version = 0 then
          (readChain size alphaIsUsed (bitsAt body.length 32 chainBits)).effect moved
        else (.error ⟨.unsupportedVersion version, []⟩, moved)
      else
        (.error ⟨.invalidParam, [.invalidSignature b₀.toNat, .readingChunk .vp8l]⟩, moved) := by
  have hfirst : [b₀].length = 1 := rfl
  have hrest : cursor.rest = [b₀] ++ body := hrest
  have hrest₁ := rest_moved hrest hfirst
  have hlength := length_of_lowBits_eq hbits
  have hlong : encodedLength ≤ cursor.remaining := by
    rw [remaining_eq_length, hrest, List.length_append, hfirst, encodedLength]
    omega
  have hfields : readFields (.ofBytes order body) =
      .ok ((size, alphaIsUsed, version), bitsAt body.length (0 + 32) chainBits) := by
    rw [← length_fieldBits size alphaIsUsed version,
      ← takes_readFields hsize hversion body.length 0 chainBits, ← hbits]
    rfl
  rw [read, effect_remaining_bind, effect_ensure_bind, if_pos hlong,
    effect_nat_bind hrest hfirst, effect_ensure_bind, effect_bits_bind,
    Cursor.bits, hrest₁, effect_lift_bind_of_ok hfields, effect_ensure_bind]
  rfl

/-- With a signature and a version that are right, the chain is read. -/
theorem effect_read_of_fields (hrest : cursor.rest = 0x2f :: body)
    (hbits : body.lowBits = fieldBits size alphaIsUsed 0 ++ chainBits)
    (hsize : IsStorableSize size) :
    read.effect cursor = (readChain size alphaIsUsed (bitsAt body.length 32 chainBits)).effect
      { cursor with position := cursor.position + 1 } := by
  have hsignature : UInt8.toNat 0x2f = signature := rfl
  rw [effect_read_cons hrest hbits hsize (by decide)]
  dsimp only
  rw [if_pos hsignature, if_pos rfl]

/-- Behind right fields a header that has a chain is read. -/
theorem effect_readChain_of_ok {transforms : List Transform} (hvalid : Chain.IsValid transforms)
    (hlength : 8 * cursor.remaining = 32 + chainBits.length)
    {tail : List Bool} (hchain : chainBits = Chain.encode transforms ++ tail) :
    (readChain size alphaIsUsed (bitsAt byteLength 32 chainBits)).effect cursor =
      (.ok ⟨size, alphaIsUsed, transforms⟩, { cursor with
        position := cursor.position + bodyLength ⟨size, alphaIsUsed, transforms⟩ }) := by
  have hread : (Chain.ofStream (bitsAt byteLength 32 chainBits)).outcome.result =
      .ok (transforms, bitsAt byteLength (32 + (Chain.encode transforms).length) tail) :=
    Chain.read_eq_ok_iff.mpr ⟨hvalid, tail, hchain, rfl⟩
  have hle : bodyLength ⟨size, alphaIsUsed, transforms⟩ ≤ cursor.remaining := by
    rw [hchain, List.length_append] at hlength
    rw [bodyLength]
    dsimp only
    omega
  rw [readChain, effect_lift_bind_of_ok (Outcome.result_noting_eq_ok.mpr hread)]
  exact effect_bytes_bind_of_le hle _

/-- Behind right fields the chain alone decides. -/
theorem effect_readChain_cases (hlength : 8 * cursor.remaining = 32 + chainBits.length) :
    (∃ transforms tail, Chain.IsValid transforms ∧ chainBits = Chain.encode transforms ++ tail ∧
      (readChain size alphaIsUsed (bitsAt byteLength 32 chainBits)).effect cursor =
        (.ok ⟨size, alphaIsUsed, transforms⟩, { cursor with
          position := cursor.position + bodyLength ⟨size, alphaIsUsed, transforms⟩ })) ∨
    ∃ fault, Chain.read TransformKind.all (bitsAt byteLength 32 chainBits) = .error fault ∧
      (readChain size alphaIsUsed (bitsAt byteLength 32 chainBits)).effect cursor =
        (.error (fault.noting (.readingChunk .vp8l)), cursor) := by
  cases hchain : Chain.read TransformKind.all (bitsAt byteLength 32 chainBits) with
  | error fault =>
    exact .inr ⟨fault, rfl, effect_lift_bind_of_error (congrArg (Except.mapError _) hchain)⟩
  | ok found =>
    obtain ⟨transforms, stream⟩ := found
    obtain ⟨hvalid, tail, htail, -⟩ := Chain.read_eq_ok_iff.mp hchain
    exact .inl ⟨transforms, tail, hvalid, htail, effect_readChain_of_ok hvalid hlength htail⟩

theorem remaining_moved {b₀ : UInt8} (hrest : cursor.rest = b₀ :: body)
    (hbits : body.lowBits = fieldBits size alphaIsUsed version ++ chainBits) :
    8 * ({ cursor with position := cursor.position + 1 } : Cursor).remaining =
      32 + chainBits.length := by
  have hrest : cursor.rest = [b₀] ++ body := hrest
  rw [remaining_eq_length, rest_moved hrest (show [b₀].length = 1 from rfl),
    length_of_lowBits_eq hbits]

/-- **Why a header is refused.** If its signature and its version are right, its chain repeats a
transform or is cut short. -/
theorem failsWith_read_iff {Q : Cause → Prop} (h : HasFixedFields cursor.rest behind) :
    FailsWith (fun fault => Q fault.cause) (read.run cursor).1.result ↔
      Q .invalidBitstream ∧ Chain.Repeats behind.lowBits ∨
        Q .truncatedChunk ∧ Chain.IsCutShort behind.lowBits := by
  obtain ⟨b₁, b₂, b₃, b₄, hrest, hversion⟩ := h
  obtain ⟨size, alphaIsUsed, hsize, hbits⟩ := exists_fields b₁ b₂ b₃ b₄ behind
  rw [hversion] at hbits
  change FailsWith _ (read.effect cursor).1 ↔ _
  rw [effect_read_of_fields hrest hbits hsize, ← Chain.failsWith_read_iff]
  rcases effect_readChain_cases (remaining_moved hrest hbits) with
    ⟨transforms, tail, hvalid, htail, hdone⟩ | ⟨fault, hfault, hdone⟩
  · rw [hdone, htail, hvalid.takesAll_read.takes]
    exact failsWith_ok_iff.trans failsWith_ok_iff.symm
  · rw [hdone, hfault, failsWith_error_iff, failsWith_error_iff, Fault.cause_noting]

/-! ### Both directions -/

theorem lowBits_encode (hfills : header.Fills filler) (trailing : Bytes) :
    Bytes.lowBits (order.pack header.bodyLength (header.bits ++ filler) ++ trailing) =
      fieldBits header.size header.alphaIsUsed 0 ++
        (Chain.encode header.transforms ++ (filler ++ trailing.lowBits)) := by
  rw [Bytes.lowBits, List.flatMap_append, order.flatMap_bits_pack, bits]
  · simp only [List.append_assoc]
    rfl
  · rw [List.length_append, hfills]

/-- Bytes with the bits of a header are the header, written, and what follows it. -/
theorem exists_encode_eq {tail : List Bool} (hbits : body.lowBits = header.bits ++ tail) :
    ∃ filler trailing, header.Fills filler ∧ 0x2f :: body = header.encode filler ++ trailing := by
  have hbitsLength : header.bits.length = 32 + (Chain.encode header.transforms).length := by
    rw [bits, List.length_append, length_fieldBits]
  have hlength := congrArg List.length hbits
  rw [Bytes.length_lowBits, List.length_append, hbitsLength] at hlength
  have hle : header.bodyLength ≤ body.length := by
    rw [bodyLength]
    omega
  have hge : header.bits.length ≤ 8 * header.bodyLength := by
    rw [bodyLength]
    omega
  have hfront : header.bits ++ tail.take (8 * header.bodyLength - header.bits.length) =
      Bytes.lowBits (body.take header.bodyLength) := by
    rw [Bytes.lowBits, order.flatMap_bits_take, ← Bytes.lowBits, hbits, List.take_append,
      List.take_of_length_le hge]
  refine ⟨tail.take (8 * header.bodyLength - header.bits.length), body.drop header.bodyLength,
    ?_, ?_⟩
  · rw [Fills, ← List.length_append, hfront, Bytes.length_lowBits, List.length_take_of_le hle]
  · have hpack := order.pack_flatMap_bits (body.take header.bodyLength)
    rw [List.length_take_of_le hle] at hpack
    rw [encode, hfront, Bytes.lowBits, hpack, List.cons_append, List.take_append_drop]

/-- A header that is read has a signature and a version that are right. -/
theorem exists_hasFixedFields_of_ok (h : read.effect cursor = (.ok header, after)) :
    ∃ behind, HasFixedFields cursor.rest behind := by
  have hlong := h
  rw [read, effect_remaining_bind, effect_ensure_bind_eq_ok_iff, remaining_eq_length] at hlong
  have hlong : 5 ≤ cursor.rest.length := hlong.1
  rcases hrest : cursor.rest with _ | ⟨b₀, _ | ⟨b₁, _ | ⟨b₂, _ | ⟨b₃, _ | ⟨b₄, behind⟩⟩⟩⟩⟩
  iterate 5 exact absurd hlong (by simp [hrest])
  have hlt := b₄.toNat_lt
  obtain ⟨size, alphaIsUsed, hsize, hbits⟩ := exists_fields b₁ b₂ b₃ b₄ behind
  rw [effect_read_cons hrest hbits hsize (by omega)] at h
  dsimp only at h
  by_cases hsignature : b₀.toNat = signature
  · rw [if_pos hsignature] at h
    by_cases hversion : b₄.toNat / 32 = 0
    · obtain rfl : b₀ = 0x2f := UInt8.toNat_inj.mp hsignature
      exact ⟨behind, b₁, b₂, b₃, b₄, rfl, hversion⟩
    · rw [if_neg hversion] at h
      cases h
  · rw [if_neg hsignature] at h
    cases h

/-- **Which headers are read.** A header is read exactly if its bytes are those that are written for
it, and the cursor moves past them. -/
theorem effect_read_eq_ok_iff :
    read.effect cursor = (.ok header, after) ↔ header.IsStorable ∧
      (∃ filler trailing, header.Fills filler ∧ cursor.rest = header.encode filler ++ trailing) ∧
      after = { cursor with position := cursor.position + (1 + header.bodyLength) } := by
  constructor
  · intro h
    obtain ⟨behind, b₁, b₂, b₃, b₄, hrest, hversion⟩ := exists_hasFixedFields_of_ok h
    obtain ⟨size, alphaIsUsed, hsize, hbits⟩ := exists_fields b₁ b₂ b₃ b₄ behind
    rw [hversion] at hbits
    rw [effect_read_of_fields hrest hbits hsize] at h
    rcases effect_readChain_cases (remaining_moved hrest hbits) with
      ⟨transforms, tail, hvalid, htail, hdone⟩ | ⟨fault, hfault, hdone⟩
    · rw [hdone, Prod.mk.injEq, Except.ok.injEq] at h
      obtain ⟨rfl, rfl⟩ := h
      rw [htail, ← List.append_assoc] at hbits
      refine ⟨⟨hsize, hvalid⟩, ?_, ?_⟩
      · rw [hrest]
        exact exists_encode_eq hbits
      · simp only [Nat.add_assoc]
    · rw [hdone] at h
      cases h
  · rintro ⟨hstorable, ⟨filler, trailing, hfills, hrest⟩, rfl⟩
    have hbits := lowBits_encode hfills trailing
    have hmoved := remaining_moved hrest hbits
    rw [effect_read_of_fields hrest hbits hstorable.size,
      effect_readChain_of_ok hstorable.transforms hmoved rfl]
    simp only [Nat.add_assoc]

/-- What is true of the read of a header at a cursor. -/
structure DecodesExactly (cursor : Cursor) : Prop where
  /-- A header that was written is read back, and the cursor moves past its last byte. -/
  reads_encoded : ∀ header filler trailing, header.IsStorable → header.Fills filler →
    cursor.rest = header.encode filler ++ trailing →
      (read.run cursor).1.result = .ok header ∧
        (read.run cursor).2 = { cursor with position := cursor.position +
          (1 + (32 + (Chain.encode header.transforms).length + 7) / 8) }
  /-- A header that was read is one that can be written, and its bytes are those that were read. -/
  reencodes : ∀ header, (read.run cursor).1.result = .ok header → header.IsStorable ∧
    ∃ filler trailing, header.Fills filler ∧ cursor.rest = header.encode filler ++ trailing ∧
      (read.run cursor).2 =
        { cursor with position := cursor.position + (header.encode filler).length }
  /-- Behind right fields of a fixed width there are two causes of a refusal. -/
  cause_iff : ∀ behind, HasFixedFields cursor.rest behind → ∀ cause,
    FailsWith (fun fault => fault.cause = cause) (read.run cursor).1.result ↔
      cause = .invalidBitstream ∧ Chain.Repeats behind.lowBits ∨
        cause = .truncatedChunk ∧ Chain.IsCutShort behind.lowBits

/-- **Headers are decoded exactly.** This is true at every position of every byte string. -/
theorem decodesExactly (cursor : Cursor) : DecodesExactly cursor := by
  refine ⟨?_, ?_, ?_⟩
  · intro header filler trailing hstorable hfills hrest
    exact Prod.mk.inj
      (effect_read_eq_ok_iff.mpr ⟨hstorable, ⟨filler, trailing, hfills, hrest⟩, rfl⟩)
  · intro header h
    obtain ⟨hstorable, ⟨filler, trailing, hfills, hrest⟩, hafter⟩ :=
      effect_read_eq_ok_iff.mp (Prod.ext h rfl : read.effect cursor = (.ok header, _))
    refine ⟨hstorable, filler, trailing, hfills, hrest, hafter.trans ?_⟩
    rw [length_encode]
  · intro behind hfixed cause
    rw [failsWith_read_iff (Q := fun found => found = cause) hfixed, eq_comm (a := cause),
      eq_comm (a := cause)]

end WebP.LosslessHeader
