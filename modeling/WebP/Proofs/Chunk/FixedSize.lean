import WebP.Proofs.Chunk.Encoding
import WebP.Proofs.Cursor.Width

/-!
# Structures of a fixed size, in both directions

A structure of a fixed size takes as many bytes and refuses none of them: what they say is always
a value that can be written. It is written as the same bytes, but for the bits of flags that have
no meaning, which come back as zeros. A value that was written is read again, whatever stands
behind it.

## Main definitions

* `WebP.Bytes.masked`: bytes with some of their bits cleared.
* `WebP.FixedForm`: a structure of a fixed size as it stands in bytes.
* `WebP.FixedForm.IsExactAt`: what is true of reading such a structure at a cursor.

## Main results

* `WebP.CanvasFlags.bits_ofBits`, `WebP.FrameFlags.bits_ofBits`: the bits of flags that are kept.
* `WebP.FixedForm.IsLawful.isExactAt`: what has to be shown of a structure.
* `WebP.fixedForms_isExactAt`: the extended header, the animation header and the header of a frame.
-/

namespace WebP

open Cursor Cursor.Read

/-! ### Bits that have a meaning -/

/-- Numbers that are cut at one bit are combined part by part. -/
theorem add_mul_and_add_mul {k a b : Nat} (ha : a < 2 ^ k) (hb : b < 2 ^ k) (x y : Nat) :
    a + 2 ^ k * x &&& b + 2 ^ k * y = (a &&& b) + 2 ^ k * (x &&& y) := by
  have hlow {c z : Nat} (hc : c < 2 ^ k) : (c + 2 ^ k * z) % 2 ^ k = c := by
    rw [Nat.add_mul_mod_self_left, Nat.mod_eq_of_lt hc]
  have hhigh {c z : Nat} (hc : c < 2 ^ k) : (c + 2 ^ k * z) / 2 ^ k = z := by
    rw [Nat.add_mul_div_left _ _ (Nat.two_pow_pos k), Nat.div_eq_of_lt hc, Nat.zero_add]
  rw [← Nat.mod_add_div (a + 2 ^ k * x &&& b + 2 ^ k * y) (2 ^ k), Nat.and_mod_two_pow,
    Nat.and_div_two_pow, hlow ha, hlow hb, hhigh ha, hhigh hb]

/-- A mask of `k` bits looks at as many bits of a number. -/
theorem and_mod_of_lt {k mask : Nat} (h : mask < 2 ^ k) (n : Nat) :
    mask &&& n % 2 ^ k = mask &&& n := by
  have hlt : mask &&& n < 2 ^ k := Nat.lt_of_le_of_lt Nat.and_le_left h
  rw [← Nat.mod_eq_of_lt hlt, Nat.and_mod_two_pow, Nat.mod_eq_of_lt h]

/-- The flags that are read from a number are stored as those of its bits that have a meaning. -/
theorem CanvasFlags.bits_ofBits (n : Nat) : (ofBits n).bits = 0x3e &&& n := by
  have hsmall : ∀ m < 2 ^ 6, (ofBits m).bits = 0x3e &&& m := by decide
  have hflags : ofBits (n % 2 ^ 6) = ofBits n := by
    simp only [ofBits, Nat.testBit_mod_two_pow]
    rfl
  rw [← hflags, hsmall _ (Nat.mod_lt n (by decide)), and_mod_of_lt (by decide)]

theorem FrameFlags.bits_ofBits (n : Nat) : (ofBits n).bits = 0x03 &&& n := by
  have hsmall : ∀ m < 2 ^ 2, (ofBits m).bits = 0x03 &&& m := by decide
  have hflags : ofBits (n % 2 ^ 2) = ofBits n := by
    simp only [ofBits, Nat.testBit_mod_two_pow]
    rfl
  rw [← hflags, hsmall _ (Nat.mod_lt n (by decide)), and_mod_of_lt (by decide)]

namespace Bytes

variable {mask bytes : Bytes}

/-- The bytes with the bits cleared that the mask does not have. -/
def masked (mask bytes : Bytes) : Bytes := List.zipWith (· &&& ·) mask bytes

theorem masked_append {mask' bytes' : Bytes} (h : mask.length = bytes.length) :
    masked (mask ++ mask') (bytes ++ bytes') = masked mask bytes ++ masked mask' bytes' :=
  List.zipWith_append h

theorem masked_full {count : Nat} (h : bytes.length = count) :
    masked (List.replicate count 0xff) bytes = bytes := by
  subst h
  induction bytes with
  | nil => rfl
  | cons b bytes ih =>
    have hb : 0xff &&& b = b := by
      rw [← UInt8.toNat_inj, UInt8.toNat_and, Nat.and_comm]
      exact Nat.and_two_pow_sub_one_of_lt_two_pow b.toNat_lt
    rw [List.length_cons, List.replicate_succ, masked, List.zipWith_cons_cons, hb]
    exact congrArg (b :: ·) ih

/-- Masked bytes form the masked number. -/
theorem natLE_masked (mask bytes : Bytes) :
    natLE (masked mask bytes) = natLE mask &&& natLE bytes := by
  induction mask generalizing bytes with
  | nil => exact (Nat.zero_and _).symm
  | cons m mask ih =>
    cases bytes with
    | nil => exact (Nat.and_zero _).symm
    | cons b bytes =>
      rw [masked, List.zipWith_cons_cons, natLE_cons, UInt8.toNat_and, ← masked, ih]
      exact (add_mul_and_add_mul m.toNat_lt b.toNat_lt _ _).symm

/-- A masked number is written as the masked bytes. -/
theorem ofNatLE_masked (width : Nat) (mask : Bytes) (hmask : mask.length = width)
    (hbytes : bytes.length = width) :
    ofNatLE width (natLE mask &&& natLE bytes) = masked mask bytes := by
  have hlength : (masked mask bytes).length = width := by
    rw [masked, List.length_zipWith, hmask, hbytes, Nat.min_self]
  rw [← natLE_masked, ← hlength, ofNatLE_natLE]

end Bytes

/-! ### Structures in bytes -/

/-- A structure of a fixed size as it stands in bytes. -/
structure FixedForm (α : Type) where
  /-- The number of bytes. -/
  length : Nat
  /-- The bits that have a meaning, byte by byte. -/
  meaning : Bytes
  read : Read α
  encode : α → Bytes
  /-- The value can be written. -/
  IsStorable : α → Prop

namespace FixedForm

variable {α : Type} {form : FixedForm α} {decode : Bytes → α}

/-- What is true of reading the structure at a cursor. -/
structure IsExactAt (form : FixedForm α) (cursor : Cursor) : Prop where
  /-- Whatever the next bytes are, they are a value, the cursor moves past them, and the value is
  written as these bytes with the bits cleared that have no meaning. -/
  reads : form.length ≤ cursor.remaining → ∃ value,
    (form.read.run cursor).1.result = .ok value ∧
      (form.read.run cursor).2 = { cursor with position := cursor.position + form.length } ∧
      form.IsStorable value ∧
      form.encode value = .masked form.meaning (cursor.rest.take form.length)
  /-- The bytes behind them do not matter. -/
  ignores_rest : ∀ other : Cursor, form.length ≤ cursor.remaining →
    other.rest.take form.length = cursor.rest.take form.length →
      (form.read.run other).1.result = (form.read.run cursor).1.result
  /-- Fewer bytes are refused. -/
  refuses_short : cursor.remaining < form.length → ∃ fault,
    (form.read.run cursor).1.result = .error fault ∧ fault.cause = .truncatedChunk
  /-- A value that was written is read, and the cursor moves past its bytes. -/
  reads_encoded : ∀ value trailing, form.IsStorable value →
    cursor.rest = form.encode value ++ trailing →
      (form.read.run cursor).1.result = .ok value ∧
        (form.read.run cursor).2 = { cursor with position := cursor.position + form.length }

/-- The structure in the first bytes of a payload is `decode` of the payload. -/
structure IsLawful (form : FixedForm α) (decode : Bytes → α) : Prop where
  width : HasWidth form.read form.length
  takes_decode : ∀ {payload : Bytes}, form.length ≤ payload.length →
    Takes form.read (payload.take form.length) (decode payload)
  isStorable_decode : ∀ payload, form.IsStorable (decode payload)
  encode_decode : ∀ {payload : Bytes}, form.length ≤ payload.length →
    form.encode (decode payload) = .masked form.meaning (payload.take form.length)
  length_encode : ∀ value, (form.encode value).length = form.length
  takes_encode : ∀ {value}, form.IsStorable value → Takes form.read (form.encode value) value

theorem IsLawful.isExactAt (h : form.IsLawful decode) (cursor : Cursor) :
    form.IsExactAt cursor where
  reads hle := by
    rw [remaining_eq_length] at hle
    obtain ⟨hresult, hafter⟩ := h.takes_decode hle cursor _ (List.take_append_drop _ _).symm
    rw [List.length_take_of_le hle] at hafter
    exact ⟨_, hresult, hafter, h.isStorable_decode _, h.encode_decode hle⟩
  ignores_rest other hle hsame := by
    rw [remaining_eq_length] at hle
    have htakes := h.takes_decode hle
    have hother := (htakes other (other.rest.drop form.length)) <| by
      rw [← hsame, List.take_append_drop]
    exact hother.1.trans (htakes cursor _ (List.take_append_drop _ _).symm).1.symm
  refuses_short hlt := h.width.cutOff hlt
  reads_encoded value trailing hstorable hrest := by
    obtain ⟨hresult, hafter⟩ := h.takes_encode hstorable cursor trailing hrest
    rw [h.length_encode] at hafter
    exact ⟨hresult, hafter⟩

end FixedForm

/-! ### The three structures -/

namespace CanvasHeader

theorem hasWidth_read : HasWidth read encodedLength :=
  (hasWidth_canvasFlags.field _ _).bind fun _ => (hasWidth_oneBased.field _ _).bind fun _ =>
    (hasWidth_oneBased.field _ _).bind fun _ => hasWidth_pure _

/-- All bits but those of flags without a meaning. -/
def meaning : Bytes :=
  [0x3e, 0, 0, 0] ++ (List.replicate 3 0xff ++ List.replicate 3 0xff)

theorem encode_decode {payload : Bytes} (h : encodedLength ≤ payload.length) :
    encode (decode payload) = .masked meaning (payload.take encodedLength) := by
  have hlong := h
  rw [encodedLength] at hlong
  have flags : (payload.slice ⟨0, 4⟩).length = 4 := Bytes.length_slice_of_le (by omega)
  have width : (payload.slice ⟨4, 7⟩).length = 3 := Bytes.length_slice_of_le (by omega)
  have height : (payload.slice ⟨7, 10⟩).length = 3 := Bytes.length_slice_of_le (by omega)
  have hflags := Bytes.ofNatLE_masked 4 [0x3e, 0, 0, 0] rfl flags
  rw [take_eq_slices, meaning, Bytes.masked_append (by rw [flags]; rfl),
    Bytes.masked_append (by rw [width, List.length_replicate]), Bytes.masked_full width,
    Bytes.masked_full height, ← hflags, encode]
  dsimp only [decode]
  rw [CanvasFlags.bits_ofBits, Nat.add_sub_cancel, Nat.add_sub_cancel,
    Bytes.ofNatLE_slice (rfl : 4 + 3 = 7) (by omega),
    Bytes.ofNatLE_slice (rfl : 7 + 3 = 10) (by omega)]
  rfl

example : encode (decode (.replicate 11 0xff)) = [0x3e, 0, 0, 0] ++ .replicate 6 0xff := by decide

/-- The extended header in bytes. -/
def form : FixedForm CanvasHeader where
  length := encodedLength
  meaning := meaning
  read := read
  encode := encode
  IsStorable header := header.canvas.IsStorable

theorem isLawful_form : form.IsLawful decode where
  width := hasWidth_read
  takes_decode := takes_decode
  isStorable_decode := isStorable_decode
  encode_decode := encode_decode
  length_encode := length_encode
  takes_encode := takes_read

end CanvasHeader

namespace AnimationHeader

theorem hasWidth_read : HasWidth read encodedLength :=
  ((hasWidth_nat 4).field _ _).bind fun _ => ((hasWidth_nat 2).field _ _).bind fun _ =>
    hasWidth_pure _

/-- All bits. -/
def meaning : Bytes := List.replicate 6 0xff

theorem encode_decode {payload : Bytes} (h : encodedLength ≤ payload.length) :
    encode (decode payload) = .masked meaning (payload.take encodedLength) := by
  have hcolor : (payload.slice ⟨0, 4⟩).natLE < 256 ^ 4 := Bytes.natLE_slice_lt rfl
  have hlong := h
  rw [encodedLength] at hlong
  have htake : (payload.take encodedLength).length = 6 := List.length_take_of_le h
  rw [meaning, Bytes.masked_full htake, take_eq_slices, encode]
  dsimp only [decode]
  rw [UInt32.toNat_ofNat_of_lt' hcolor, Bytes.ofNatLE_slice (rfl : 0 + 4 = 4) (by omega),
    Bytes.ofNatLE_slice (rfl : 4 + 2 = 6) (by omega)]

/-- The animation header in bytes. -/
def form : FixedForm AnimationHeader where
  length := encodedLength
  meaning := meaning
  read := read
  encode := encode
  IsStorable header := header.loopCount < 2 ^ 16

theorem isLawful_form : form.IsLawful decode where
  width := hasWidth_read
  takes_decode := takes_decode
  isStorable_decode _ := Bytes.natLE_slice_lt (rfl : 4 + 2 = 6)
  encode_decode := encode_decode
  length_encode := length_encode
  takes_encode := takes_read

end AnimationHeader

namespace FrameHeader

theorem hasWidth_read : HasWidth read encodedLength :=
  ((hasWidth_nat 3).field _ _).bind fun _ => ((hasWidth_nat 3).field _ _).bind fun _ =>
    (hasWidth_oneBased.field _ _).bind fun _ => (hasWidth_oneBased.field _ _).bind fun _ =>
      ((hasWidth_nat 3).field _ _).bind fun _ => (hasWidth_frameFlags.field _ _).bind fun _ =>
        hasWidth_pure _

/-- All bits but those of flags without a meaning. -/
def meaning : Bytes := List.replicate 15 0xff ++ [0x03]

theorem isStorable_decode (payload : Bytes) : (decode payload).IsStorable := by
  have hlt (a : Nat) : (payload.slice ⟨a, a + 3⟩).natLE < 256 ^ 3 := Bytes.natLE_slice_lt rfl
  have hx : (payload.slice ⟨0, 3⟩).natLE < 256 ^ 3 := hlt 0
  have hy : (payload.slice ⟨3, 6⟩).natLE < 256 ^ 3 := hlt 3
  refine ⟨⟨Nat.succ_pos _, hlt 6, Nat.succ_pos _, hlt 9⟩, Nat.mul_mod_right 2 _, ?_,
    Nat.mul_mod_right 2 _, ?_, hlt 12⟩
  all_goals
    dsimp only [decode]
    omega

theorem encode_decode {payload : Bytes} (h : encodedLength ≤ payload.length) :
    encode (decode payload) = .masked meaning (payload.take encodedLength) := by
  rw [encodedLength] at h
  have hfields : (payload.slice ⟨0, 15⟩).length = 15 := Bytes.length_slice_of_le (by omega)
  have flags : (payload.slice ⟨15, 16⟩).length = 1 := Bytes.length_slice_of_le (by omega)
  have hflags := Bytes.ofNatLE_masked 1 [0x03] rfl flags
  rw [encodedLength, ← Bytes.slice_zero,
    ← payload.slice_append_slice (by decide : 0 ≤ 15) (by decide : 15 ≤ 16), meaning,
    Bytes.masked_append (by rw [hfields, List.length_replicate]), Bytes.masked_full hfields,
    ← hflags, encode]
  dsimp only [decode]
  have hhalf (n : Nat) : 2 * n / 2 = n := Nat.mul_div_cancel_left n (by decide)
  rw [FrameFlags.bits_ofBits, Nat.add_sub_cancel, Nat.add_sub_cancel, hhalf, hhalf,
    Bytes.ofNatLE_slice (rfl : 0 + 3 = 3) (by omega),
    Bytes.ofNatLE_slice (rfl : 3 + 3 = 6) (by omega),
    Bytes.ofNatLE_slice (rfl : 6 + 3 = 9) (by omega),
    Bytes.ofNatLE_slice (rfl : 9 + 3 = 12) (by omega),
    Bytes.ofNatLE_slice (rfl : 12 + 3 = 15) (by omega),
    ← payload.slice_append_slice (by decide : 0 ≤ 12) (by decide : 12 ≤ 15),
    ← payload.slice_append_slice (by decide : 0 ≤ 9) (by decide : 9 ≤ 12),
    ← payload.slice_append_slice (by decide : 0 ≤ 6) (by decide : 6 ≤ 9),
    ← payload.slice_append_slice (by decide : 0 ≤ 3) (by decide : 3 ≤ 6)]
  simp only [List.append_assoc]
  rfl

/-- The header of a frame in bytes. -/
def form : FixedForm FrameHeader where
  length := encodedLength
  meaning := meaning
  read := read
  encode := encode
  IsStorable := IsStorable

theorem isLawful_form : form.IsLawful decode where
  width := hasWidth_read
  takes_decode := takes_decode
  isStorable_decode := isStorable_decode
  encode_decode := encode_decode
  length_encode := length_encode
  takes_encode := takes_read

end FrameHeader

/-- **Structures of a fixed size are read exactly.** This is true at every position of every byte
string. -/
theorem fixedForms_isExactAt (cursor : Cursor) :
    CanvasHeader.form.IsExactAt cursor ∧ AnimationHeader.form.IsExactAt cursor ∧
      FrameHeader.form.IsExactAt cursor :=
  ⟨CanvasHeader.isLawful_form.isExactAt cursor, AnimationHeader.isLawful_form.isExactAt cursor,
    FrameHeader.isLawful_form.isExactAt cursor⟩

end WebP
