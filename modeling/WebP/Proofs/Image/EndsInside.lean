import WebP.Proofs.Image.Acceptance
import WebP.Proofs.Outcome.FailsWith

/-!
# Payloads that end inside their headers

The headers of an image or of an alpha plane are read up to the end of the chain of transforms.
A payload that ends before is refused for want of bytes. Which payloads these are is said of the
bytes alone: a length that is too small for the fixed fields, or bits that end inside the chain.

## Main definitions

* `WebP.Chain.EndsInside`: bits that end before the chain that they begin does.
* `WebP.LosslessHeader.EndsInside`, `WebP.AlphaInfo.EndsInside`: payloads that end inside their
  headers.
* `WebP.ImageFormat.EndsInside`: the same for the payload of an image chunk.

## Main results

* `WebP.Chain.ofKinds_ending`: when a chain runs out, and where it ends otherwise.
* `WebP.ImageFormat.runsOut_inspect_iff`, `WebP.AlphaInfo.runsOut_inspect_iff`: which payloads are
  refused for want of bytes.
-/

namespace WebP

open Outcome Cursor.Read

/-! ### The size of a transform -/

/-- The number of bits behind the kind of a transform. -/
def TransformKind.sizeWidth : TransformKind → Nat
  | .predictor | .crossColor => 3
  | .subtractGreen => 0
  | .colorIndexing => 8

namespace Transform

variable {kind : TransformKind} {stream : BitStream}

theorem readBlockSize_of_le (h : 3 ≤ stream.rest.length) :
    readBlockSize stream = .ok (1 <<< (2 + stream.order.value (stream.rest.take 3)),
      { stream with position := stream.position + 3, rest := stream.rest.drop 3 }) := by
  simp only [readBlockSize, bind, StateT.bind, Except.bind, BitStream.field_eq_ok (by decide) h]
  rfl

theorem runsOut_readBlockSize (h : stream.rest.length < 3) : RunsOut (readBlockSize stream) := by
  simp only [readBlockSize, bind, StateT.bind, Except.bind, BitStream.field_eq_error (by decide) h]
  exact failsWith_error_iff.mpr rfl

/-- The size of a transform is there if its bits are; then the bits behind it are left. -/
theorem readSize_of_le (h : kind.sizeWidth ≤ stream.rest.length) :
    ∃ transform, (transform.hasImage = true ↔ kind ≠ .subtractGreen) ∧
      readSize kind stream = .ok (transform,
        { stream with
          position := stream.position + kind.sizeWidth
          rest := stream.rest.drop kind.sizeWidth }) := by
  cases kind with
  | subtractGreen => exact ⟨.subtractGreen, by decide, rfl⟩
  | predictor =>
    refine ⟨.predictor (1 <<< (2 + stream.order.value (stream.rest.take 3))),
      iff_of_true rfl (by decide), ?_⟩
    simp only [readSize, bind, StateT.bind, Except.bind, readBlockSize_of_le h]
    rfl
  | crossColor =>
    refine ⟨.crossColor (1 <<< (2 + stream.order.value (stream.rest.take 3))),
      iff_of_true rfl (by decide), ?_⟩
    simp only [readSize, bind, StateT.bind, Except.bind, readBlockSize_of_le h]
    rfl
  | colorIndexing =>
    have h : 8 ≤ stream.rest.length := h
    refine ⟨.colorIndexing (stream.order.value (stream.rest.take 8) + 1),
      iff_of_true rfl (by decide), ?_⟩
    simp only [readSize, bind, StateT.bind, Except.bind, BitStream.field_eq_ok (by decide) h]
    rfl

theorem runsOut_readSize (h : stream.rest.length < kind.sizeWidth) :
    RunsOut (readSize kind stream) := by
  cases kind with
  | subtractGreen => exact absurd h (Nat.not_lt_zero _)
  | predictor | crossColor =>
    obtain ⟨fault, hfault, hstatus⟩ := runsOut_readBlockSize h
    simp only [readSize, bind, StateT.bind, Except.bind, hfault]
    exact failsWith_error_iff.mpr hstatus
  | colorIndexing =>
    have h : stream.rest.length < 8 := h
    simp only [readSize, bind, StateT.bind, Except.bind, BitStream.field_eq_error (by decide) h]
    exact failsWith_error_iff.mpr rfl

end Transform

/-! ### The chain of transforms -/

/-- The kind with the given two bits as its code, the lower one first. -/
def TransformKind.ofBits (low high : Bool) : TransformKind := .ofCode (low.toNat + 2 * high.toNat)

namespace Chain

/-- The bits end inside the chain that they begin, the kinds of which are those in `unseen`. -/
inductive EndsInside : (unseen : List TransformKind) → List Bool → Prop
  /-- There is no bit that says whether a transform follows. -/
  | flag (unseen : List TransformKind) : EndsInside unseen []
  | kind (unseen : List TransformKind) {rest : List Bool} (short : rest.length < 2) :
      EndsInside unseen (true :: rest)
  | size {unseen : List TransformKind} {low high : Bool} {rest : List Bool}
      (member : .ofBits low high ∈ unseen)
      (short : rest.length < (TransformKind.ofBits low high).sizeWidth) :
      EndsInside unseen (true :: low :: high :: rest)
  /-- Only behind a transform without an image of its own the chain goes on. -/
  | next {unseen : List TransformKind} {rest : List Bool} (member : .subtractGreen ∈ unseen)
      (behind : EndsInside (unseen.erase .subtractGreen) rest) :
      EndsInside unseen (true :: false :: true :: rest)

variable {unseen : List TransformKind} {rest : List Bool}

theorem not_endsInside_false : ¬ EndsInside unseen (false :: rest) := by
  intro h
  cases h

theorem endsInside_kind_iff {low high : Bool} :
    EndsInside unseen (true :: low :: high :: rest) ↔ .ofBits low high ∈ unseen ∧
      (rest.length < (TransformKind.ofBits low high).sizeWidth ∨
        TransformKind.ofBits low high = .subtractGreen ∧
          EndsInside (unseen.erase (.ofBits low high)) rest) := by
  constructor
  · intro h
    cases h with
    | kind _ short => exact absurd short (by simp)
    | size member short => exact ⟨member, .inl short⟩
    | next member behind => exact ⟨member, .inr ⟨rfl, behind⟩⟩
  · rintro ⟨member, short | ⟨hkind, behind⟩⟩
    · exact .size member short
    · rw [hkind] at member behind
      cases low <;> cases high <;> first | exact .next member behind | cases hkind

/-- The bits of a stream whose lowest bits come first. -/
abbrev bitsAt (byteLength position : Nat) (rest : List Bool) : BitStream :=
  ⟨.leastSignificantFirst, byteLength, position, rest⟩

variable {byteLength position : Nat}

theorem nextKind_false : nextKind (bitsAt byteLength position (false :: rest)) =
    .ok (none, bitsAt byteLength (position + 1) rest) := rfl

theorem nextKind_true {low high : Bool} :
    nextKind (bitsAt byteLength position (true :: low :: high :: rest)) =
      .ok (some (.ofBits low high), bitsAt byteLength (position + 3) rest) := rfl

theorem runsOut_nextKind (h : rest.length < 2) :
    RunsOut (nextKind (bitsAt byteLength position (true :: rest))) := by
  match rest, h with
  | [], _ => exact failsWith_error_iff.mpr rfl
  | [_], _ => exact failsWith_error_iff.mpr rfl

theorem ending_of_outcome {chain : Chain} {transforms : List Transform} {after : BitStream}
    (h : chain.outcome.result = .ok (transforms, after)) : chain.ending = .ok after := by
  obtain ⟨found, ending⟩ := chain
  cases ending with
  | error fault => cases h
  | ok stream =>
    obtain ⟨-, rfl⟩ := Prod.mk.inj (Except.ok.inj h)
    rfl

/-- A chain that runs out before its first transform. -/
theorem ofKinds_ending_of_runsOut (hends : EndsInside unseen rest)
    (h : RunsOut (nextKind (bitsAt byteLength position rest))) :
    (RunsOut (ofKinds unseen (bitsAt byteLength position rest)).ending ↔
      EndsInside unseen rest) ∧
    ∀ after, (ofKinds unseen (bitsAt byteLength position rest)).ending = .ok after →
      after.position ≤ position + rest.length := by
  obtain ⟨fault, hfault, hstatus⟩ := h
  rw [ofKinds]
  simp only [hfault]
  refine ⟨iff_of_true (failsWith_error_iff.mpr hstatus) hends, ?_⟩
  rintro _ ⟨⟩

/-- **When a chain runs out.** A chain runs out of bits exactly if the bits end inside it, and
otherwise it ends at one of the bits. -/
theorem ofKinds_ending (unseen : List TransformKind) (byteLength position : Nat)
    (rest : List Bool) :
    (RunsOut (ofKinds unseen (bitsAt byteLength position rest)).ending ↔
      EndsInside unseen rest) ∧
    ∀ after, (ofKinds unseen (bitsAt byteLength position rest)).ending = .ok after →
      after.position ≤ position + rest.length := by
  induction hn : unseen.length using Nat.strongRecOn generalizing unseen position rest with
  | _ n ih =>
    match rest with
    | [] => exact ofKinds_ending_of_runsOut (.flag unseen) (failsWith_error_iff.mpr rfl)
    | false :: rest =>
      rw [ofKinds]
      simp only [nextKind_false]
      refine ⟨iff_of_false failsWith_ok_iff.mp not_endsInside_false, ?_⟩
      rintro _ ⟨⟩
      dsimp only [List.length_cons]
      omega
    | [true] =>
      have hshort : ([] : List Bool).length < 2 := by decide
      exact ofKinds_ending_of_runsOut (.kind unseen hshort) (runsOut_nextKind hshort)
    | [true, bit] =>
      have hshort : [bit].length < 2 := Nat.one_lt_two
      exact ofKinds_ending_of_runsOut (.kind unseen hshort) (runsOut_nextKind hshort)
    | true :: low :: high :: rest =>
      rw [ofKinds, endsInside_kind_iff]
      simp only [nextKind_true]
      by_cases hmem : TransformKind.ofBits low high ∈ unseen
      · rw [dif_pos hmem, and_iff_right hmem]
        let kind : TransformKind := .ofBits low high
        let stream := bitsAt byteLength (position + 3) rest
        let read := BitStream.noting (.readingTransform kind) (Transform.readSize kind)
        rcases Nat.lt_or_ge stream.rest.length kind.sizeWidth with hlt | hge
        · obtain ⟨fault, hfault, hstatus⟩ := Transform.runsOut_readSize hlt
          have hnoted : read stream = .error (fault.noting (.readingTransform kind)) :=
            congrArg (Except.mapError _) hfault
          simp only [read, stream, kind] at hnoted
          simp only [hnoted]
          refine ⟨iff_of_true (failsWith_error_iff.mpr hstatus) (.inl hlt), ?_⟩
          rintro _ ⟨⟩
        · obtain ⟨transform, himage, hread⟩ := Transform.readSize_of_le hge
          have hnoted : read stream = .ok (transform, _) := congrArg (Except.mapError _) hread
          simp only [read, stream, kind] at hnoted
          simp only [hnoted]
          rw [or_iff_right (Nat.not_lt.mpr hge)]
          by_cases hkind : TransformKind.ofBits low high = .subtractGreen
          · -- the chain goes on where the transform ends, as it has no size
            have hlast : transform.hasImage = false :=
              Bool.eq_false_iff.mpr fun h => himage.mp h hkind
            rw [hkind] at hmem ⊢
            rw [if_neg (by rw [hlast]; exact Bool.false_ne_true), and_iff_right rfl]
            have hlt := length_erase_lt hmem
            obtain ⟨hends, hafter⟩ := ih _ (by omega) (unseen.erase .subtractGreen)
              (position + 3) rest rfl
            refine ⟨hends, fun after h => Nat.le_trans (hafter after h) ?_⟩
            dsimp only [List.length_cons]
            omega
          · rw [if_pos (himage.mpr hkind)]
            refine ⟨iff_of_false failsWith_ok_iff.mp fun h => hkind h.1, ?_⟩
            rintro _ ⟨⟩
            have hge : (TransformKind.ofBits low high).sizeWidth ≤ rest.length := hge
            dsimp only [List.length_cons]
            omega
      · rw [dif_neg hmem]
        refine ⟨iff_of_false (fun h => ?_) fun h => hmem h.1, ?_⟩
        · exact absurd (failsWith_error_iff.mp h) Bool.false_ne_true
        · rintro _ ⟨⟩

end Chain

/-! ### The headers of images and alpha planes -/

/-- The bits of bytes, the lowest bit of each byte first. -/
def Bytes.lowBits (bytes : Bytes) : List Bool := bytes.flatMap BitOrder.leastSignificantFirst.bits

theorem Bytes.length_lowBits (bytes : Bytes) : bytes.lowBits.length = 8 * bytes.length := by
  induction bytes with
  | nil => rfl
  | cons b bytes ih =>
    rw [lowBits, List.flatMap_cons, List.length_append, BitOrder.length_bits, List.length_cons,
      Nat.mul_succ, Nat.add_comm 8]
    exact congrArg (· + 8) ih

namespace LosslessHeader

/-- The three highest bits of a byte. -/
theorem value_high_bits (b : UInt8) :
    BitOrder.leastSignificantFirst.value [b.toNat.testBit 5, b.toNat.testBit 6, b.toNat.testBit 7] =
      b.toNat / 32 := by
  have hlt := b.toNat_lt
  simp only [BitOrder.value, BitOrder.binary, Nat.toNat_testBit]
  omega

/-- The fields of a fixed width take four bytes, of which the three highest bits are the
version. -/
theorem readFields_ofBytes (b₁ b₂ b₃ b₄ : UInt8) (rest : Bytes) : ∃ fields,
    readFields (.ofBytes .leastSignificantFirst (b₁ :: b₂ :: b₃ :: b₄ :: rest)) =
      .ok (fields, Chain.bitsAt (rest.length + 4) 32 rest.lowBits) ∧
    fields.2.2 = b₄.toNat / 32 :=
  ⟨_, rfl, value_high_bits b₄⟩

/-- The payload ends before the header of a lossless image does: it is too short for the fields of
a fixed width, or its bits end inside the chain of transforms behind them. -/
def EndsInside (payload : Bytes) : Prop :=
  payload.length < 5 ∨ ∃ (b₁ b₂ b₃ b₄ : UInt8) (rest : Bytes),
    payload = 0x2f :: b₁ :: b₂ :: b₃ :: b₄ :: rest ∧ b₄ < 32 ∧
      Chain.EndsInside TransformKind.all rest.lowBits

/-- The bytes that the bits of the header touch are there. -/
theorem bytesConsumed_le {rest : Bytes} {after : BitStream}
    (h : after.position ≤ 32 + rest.lowBits.length) : after.bytesConsumed ≤ 4 + rest.length := by
  rw [Bytes.length_lowBits] at h
  rw [BitStream.bytesConsumed]
  omega

theorem runsOut_read_cons_iff (b₀ b₁ b₂ b₃ b₄ : UInt8) (rest : Bytes) :
    RunsOut (read.ofStart (b₀ :: b₁ :: b₂ :: b₃ :: b₄ :: rest)).result ↔
      b₀.toNat = signature ∧ b₄.toNat / 32 = 0 ∧
        Chain.EndsInside TransformKind.all rest.lowBits := by
  obtain ⟨fields, hfields, hversion⟩ := readFields_ofBytes b₁ b₂ b₃ b₄ rest
  obtain ⟨hends, hafter⟩ := Chain.ofKinds_ending TransformKind.all (rest.length + 4) 32
    rest.lowBits
  let start : Cursor := .ofBytes (b₀ :: b₁ :: b₂ :: b₃ :: b₄ :: rest)
  let cursor : Cursor := { start with position := 1 }
  have hlong : encodedLength ≤ start.remaining := Nat.le_add_left 5 rest.length
  have hstream : ((lift (Outcome.ofExcept
      (readFields (cursor.bits .leastSignificantFirst)))).run cursor).1.result = .ok _ := hfields
  refine (failsWith_run_bind_of_ok rfl rfl).trans (failsWith_run_ensure_bind_iff.trans ?_)
  rw [or_iff_right fun h => h.1 hlong]
  refine (and_iff_right hlong).trans ((failsWith_run_bind_of_ok (a := b₀.toNat) rfl
    (show _ = cursor from rfl)).trans (failsWith_run_ensure_bind_iff.trans ?_))
  rw [or_iff_right fun h => Bool.false_ne_true h.2]
  refine and_congr_right fun _ => (failsWith_run_bind_of_ok rfl (show _ = cursor from rfl)).trans
    ((failsWith_run_bind_of_ok hstream (show _ = cursor from rfl)).trans
      (failsWith_run_ensure_bind_iff.trans ?_))
  rw [or_iff_right fun h => Bool.false_ne_true h.2, hversion, ← hends]
  refine and_congr_right fun _ => failsWith_run_bind_iff.trans ?_
  rw [or_iff_left]
  · exact runsOut_noting_iff.trans failsWith_map_iff
  · -- once the chain has been read, the bytes that hold it are there
    rintro ⟨⟨transforms, after⟩, hchain, hout⟩
    have hending := Chain.ending_of_outcome (result_noting_eq_ok.mp hchain)
    have henough : after.bytesConsumed ≤ cursor.remaining := by
      have hle := bytesConsumed_le (hafter after hending)
      change _ ≤ rest.length + 5 - 1
      omega
    exact ((needsAtMost_bytes after.bytesConsumed).bind fun _ => needsAtMost_pure _).not_runsOut
      henough hout

/-- **Which lossless images are cut short.** -/
theorem runsOut_iff {payload : Bytes} :
    RunsOut (read.ofStart payload).result ↔ EndsInside payload := by
  match payload with
  | [] | [_] | [_, _] | [_, _, _] | [_, _, _, _] =>
    exact iff_of_true (failsWith_error_iff.mpr rfl) (.inl (by simp))
  | b₀ :: b₁ :: b₂ :: b₃ :: b₄ :: rest =>
    have hfirst : b₀.toNat = signature ↔ b₀ = 0x2f := UInt8.toNat_inj (b := 0x2f)
    have hversion : b₄.toNat / 32 = 0 ↔ b₄ < 32 := by
      rw [Nat.div_eq_zero_iff, UInt8.lt_iff_toNat_lt]
      exact or_iff_right (by decide)
    have hlong : ¬ (b₀ :: b₁ :: b₂ :: b₃ :: b₄ :: rest).length < 5 :=
      Nat.not_lt.mpr (Nat.le_add_left 5 rest.length)
    rw [runsOut_read_cons_iff, EndsInside, or_iff_right hlong, hfirst, hversion]
    constructor
    · rintro ⟨rfl, hlow, hends⟩
      exact ⟨b₁, b₂, b₃, b₄, rest, rfl, hlow, hends⟩
    · rintro ⟨_, _, _, _, _, heq, hlow, hends⟩
      simp only [List.cons.injEq] at heq
      obtain ⟨rfl, rfl, rfl, rfl, rfl, rfl⟩ := heq
      exact ⟨rfl, hlow, hends⟩

end LosslessHeader

/-- A payload with the ten bytes of the header of a key frame is not cut short. -/
theorem KeyFrameHeader.runsOut_iff {payload : Bytes} :
    RunsOut (read.ofStart payload).result ↔ payload.length < encodedLength := by
  refine (failsWith_run_bind_of_ok rfl (show _ = Cursor.ofBytes payload from rfl)).trans
    (failsWith_run_ensure_bind_iff.trans ?_)
  rw [Nat.not_le, or_iff_left]
  · exact and_iff_left rfl
  · rintro ⟨hlong, hout⟩
    refine NeedsAtMost.not_runsOut (n := 10) ?_ hlong hout
    refine (needsAtMost_nat 3).bind (n := 7) fun tag => ?_
    refine .ensure_bind Bool.false_ne_true (.ensure_bind Bool.false_ne_true
      (.ensure_bind Bool.false_ne_true ?_))
    refine (needsAtMost_bytes 3).bind (n := 4) fun code => .ensure_bind Bool.false_ne_true ?_
    refine (needsAtMost_nat 2).bind (n := 2) fun width => ?_
    refine (needsAtMost_nat 2).bind (n := 0) fun height => ?_
    refine needsAtMost_remaining.bind (n := 0) fun left => .ensure_bind Bool.false_ne_true ?_
    exact .ensure_bind Bool.false_ne_true (.ensure_bind Bool.false_ne_true (needsAtMost_pure _))

namespace ImageFormat

/-- The payload ends before the header of an image of the format does. -/
def EndsInside : ImageFormat → Bytes → Prop
  | .lossy, payload => payload.length < 10
  | .lossless, payload => LosslessHeader.EndsInside payload

/-- **Which images are cut short.** An image is refused for want of bytes exactly if its payload
ends inside its header, whatever the settings are. -/
theorem runsOut_inspect_iff {config : Config} {format : ImageFormat} {payload : Bytes} :
    RunsOut (ImageInfo.inspect config format payload).result ↔ format.EndsInside payload := by
  refine runsOut_noting_iff.trans ?_
  cases format with
  | lossy =>
    dsimp only
    rw [ImageInfo.result_inspectLossy]
    exact failsWith_map_iff.trans KeyFrameHeader.runsOut_iff
  | lossless =>
    dsimp only
    rw [ImageInfo.result_inspectLossless]
    exact failsWith_map_iff.trans LosslessHeader.runsOut_iff

end ImageFormat

namespace AlphaInfo

/-- The payload ends before the header of an alpha plane does: it is empty, or the plane is
compressed without loss and the bits end inside its chain of transforms. -/
def EndsInside (payload : Bytes) : Prop :=
  payload = [] ∨ ∃ (b : UInt8) (rest : Bytes), payload = b :: rest ∧ b.toNat % 4 = 1 ∧
    b.toNat / 16 % 4 ≤ 1 ∧ Chain.EndsInside TransformKind.all rest.lowBits

/-- The header of an alpha plane is one byte. An invalid one is not a lack of bytes. -/
theorem runsOut_read_bind_iff (b : UInt8) (rest : Bytes)
    (next : AlphaHeader → Cursor.Read AlphaInfo) :
    RunsOut ((AlphaHeader.read >>= next).run (.ofBytes (b :: rest))).1.result ↔
      b.toNat % 4 ≤ 1 ∧ b.toNat / 16 % 4 ≤ 1 ∧
        RunsOut ((next ⟨if b.toNat % 4 = 0 then .uncompressed else .lossless,
          .ofCode (b.toNat / 4 % 4), b.toNat / 16 % 4⟩).run
            { Cursor.ofBytes (b :: rest) with position := 1 }).1.result := by
  rw [AlphaHeader.read, Cursor.Read.bind_assoc]
  refine (failsWith_run_bind_of_ok (a := b.toNat) rfl rfl).trans ?_
  rw [Cursor.Read.bind_assoc]
  refine failsWith_run_ensure_bind_iff.trans ?_
  rw [or_iff_right fun h => Bool.false_ne_true h.2, Cursor.Read.bind_assoc]
  refine and_congr_right fun _ => failsWith_run_ensure_bind_iff.trans ?_
  rw [or_iff_right fun h => Bool.false_ne_true h.2, Cursor.Read.bind_assoc]
  exact and_congr_right fun _ => failsWith_run_bind_of_ok (result_emitIf _ _) rfl

/-- **Which alpha planes are cut short.** -/
theorem runsOut_inspect_iff {payload : Bytes} :
    RunsOut (inspect payload).result ↔ EndsInside payload := by
  match payload with
  | [] => exact iff_of_true (failsWith_error_iff.mpr rfl) (.inl rfl)
  | b :: rest =>
    obtain ⟨hends, -⟩ := Chain.ofKinds_ending TransformKind.all rest.length 0 (Bytes.lowBits rest)
    rw [inspect, Cursor.Read.ofStart, read, runsOut_read_bind_iff, EndsInside]
    have hcons : (b :: rest = [] ∨ ∃ (first : UInt8) (others : Bytes), b :: rest = first :: others ∧
        first.toNat % 4 = 1 ∧ first.toNat / 16 % 4 ≤ 1 ∧
          Chain.EndsInside TransformKind.all others.lowBits) ↔
        b.toNat % 4 = 1 ∧ b.toNat / 16 % 4 ≤ 1 ∧
          Chain.EndsInside TransformKind.all (Bytes.lowBits rest) := by
      simp only [reduceCtorEq, false_or, List.cons.injEq]
      constructor
      · rintro ⟨_, _, ⟨rfl, rfl⟩, h⟩
        exact h
      · exact fun h => ⟨b, rest, ⟨rfl, rfl⟩, h⟩
    rw [hcons]
    by_cases hmethod : b.toNat % 4 = 1
    · rw [if_neg (by omega), and_iff_right (by omega), and_iff_right hmethod, ← hends]
      refine and_congr_right fun _ => failsWith_run_bind_iff.trans ?_
      rw [or_iff_left fun h => failsWith_ok_iff.mp h.choose_spec.2]
      refine (failsWith_run_bind_of_ok rfl rfl).trans (failsWith_run_bind_iff.trans ?_)
      rw [or_iff_left fun h => failsWith_ok_iff.mp h.choose_spec.2]
      exact runsOut_noting_iff.trans failsWith_map_iff
    · refine iff_of_false ?_ fun h => hmethod h.1
      rintro ⟨hle, -, hout⟩
      rw [if_pos (by omega)] at hout
      exact failsWith_ok_iff.mp hout

end AlphaInfo

end WebP
