import WebP.Chunk.Kind
import WebP.Image
import WebP.Proofs.Cursor.Takes

/-!
# Which images are accepted

The headers of an image are accepted, or not, whatever the settings are: the detail of a lossy
image, which settings leave out and which may be damaged, never decides.

## Main definitions

* `WebP.Bytes.alphaBit`: the bit by which a lossless image says that it uses alpha.
* `WebP.ImageFormat.Accepts`: a payload whose headers are those of an image of a size.
* `WebP.AlphaInfo.Accepts`: a payload whose headers are those of an alpha plane.
* `WebP.ImageInfo.detail?`: the detail of a lossy image under given settings.

## Main results

* `WebP.ImageInfo.inspect_lossy_eq_ok_iff`, `WebP.ImageInfo.inspect_lossless_eq_ok_iff`: what is
  known of an image.
* `WebP.LosslessHeader.alphaIsUsed_of_read`: which bit says that a lossless image uses alpha.
* `WebP.ImageFormat.accepts_iff`: settings do not change what is accepted.
-/

namespace WebP

open Outcome

namespace ImageInfo

/-- The detail of a lossy image, where the settings ask for it and it can be read. -/
def detail? (config : Config) (payload : Bytes) (header : KeyFrameHeader) : Option LossyDetail :=
  if config.inspectLossyDetail then (LossyDetail.read payload header).toOption else none

theorem result_lossyDetail (payload : Bytes) (header : KeyFrameHeader) :
    (lossyDetail payload header).result = .ok (LossyDetail.read payload header).toOption := by
  unfold lossyDetail
  split
  · rename_i detail h
    rw [h]
    rfl
  · rename_i fault h
    rw [h]
    rfl

/-- What is known of a lossy image is said by the header of its key frame and by the detail. -/
theorem result_inspectLossy (config : Config) (payload : Bytes) :
    (inspectLossy config payload).result =
      (KeyFrameHeader.read.ofStart payload).result.map fun header =>
        ⟨header.size, false, .lossy, detail? config payload header, []⟩ := by
  rw [inspectLossy, result_bind]
  cases (KeyFrameHeader.read.ofStart payload).result with
  | error fault => rfl
  | ok header =>
    simp only [detail?]
    cases config.inspectLossyDetail with
    | true =>
      change (lossyDetail payload header >>= _).result = _
      rw [result_bind, result_lossyDetail]
      rfl
    | false => rfl

theorem result_inspectLossless (payload : Bytes) :
    (inspectLossless payload).result =
      (LosslessHeader.read.ofStart payload).result.map fun header =>
        ⟨header.size, header.alphaIsUsed, .lossless, none, header.transforms⟩ := by
  rw [inspectLossless, result_bind]
  cases (LosslessHeader.read.ofStart payload).result with
  | error fault => rfl
  | ok header => rfl

/-- What is known of a lossy image follows from the header of its key frame. -/
theorem inspect_lossy_eq_ok_iff {config : Config} {payload : Bytes} {info : ImageInfo} :
    (inspect config .lossy payload).result = .ok info ↔
      ∃ header, (KeyFrameHeader.read.ofStart payload).result = .ok header ∧
        info = ⟨header.size, false, .lossy, detail? config payload header, []⟩ := by
  simp only [inspect, inspectLossy, result_noting_eq_ok, result_bind_eq_ok, result_emit,
    exists_const, true_and, detail?]
  cases config.inspectLossyDetail with
  | true =>
    simp only [if_true, result_bind_eq_ok, result_lossyDetail, result_pure, Except.ok.injEq,
      exists_eq_left', @eq_comm _ info]
  | false =>
    simp only [Bool.false_eq_true, if_false, result_bind_eq_ok, result_pure, Except.ok.injEq,
      exists_eq_left', @eq_comm _ info]

/-- What is known of a lossless image follows from its header. -/
theorem inspect_lossless_eq_ok_iff {config : Config} {payload : Bytes} {info : ImageInfo} :
    (inspect config .lossless payload).result = .ok info ↔
      ∃ header, (LosslessHeader.read.ofStart payload).result = .ok header ∧
        info = ⟨header.size, header.alphaIsUsed, .lossless, none, header.transforms⟩ := by
  simp only [inspect, inspectLossless, result_noting_eq_ok, result_bind_eq_ok, result_emit,
    result_pure, Except.ok.injEq, exists_const, true_and]
  simp only [@eq_comm _ info]

/-- An image is of the format that it was inspected as. -/
theorem format_of_inspect {config : Config} {format : ImageFormat} {payload : Bytes}
    {info : ImageInfo} (h : (inspect config format payload).result = .ok info) :
    info.format = format := by
  cases format with
  | lossy =>
    obtain ⟨header, -, rfl⟩ := inspect_lossy_eq_ok_iff.mp h
    rfl
  | lossless =>
    obtain ⟨header, -, rfl⟩ := inspect_lossless_eq_ok_iff.mp h
    rfl

end ImageInfo

/-! ### Sizes -/

/-- The image of a key frame has no empty dimension. -/
theorem KeyFrameHeader.size_pos_of_read {payload : Bytes} {header : KeyFrameHeader}
    (h : (read.ofStart payload).result = .ok header) :
    0 < header.size.width ∧ 0 < header.size.height := by
  simp only [Cursor.Read.ofStart, read, Cursor.Read.result_run_bind_eq_ok,
    Cursor.Read.result_run_ensure_eq_ok, Cursor.Read.run_pure, result_pure, Except.ok.injEq,
    exists_const] at h
  obtain ⟨_, -, -, _, -, -, -, -, _, -, -, _, -, _, -, _, -, -, hwidth, hheight, rfl⟩ := h
  exact ⟨Nat.pos_of_ne_zero hwidth, Nat.pos_of_ne_zero hheight⟩

/-- The dimensions of a lossless image are stored less one. -/
theorem LosslessHeader.size_pos_of_readFields {stream after : BitStream} {size : Size}
    {alphaIsUsed : Bool} {version : Nat}
    (h : readFields stream = .ok ((size, alphaIsUsed, version), after)) :
    0 < size.width ∧ 0 < size.height := by
  simp only [readFields, bind, StateT.bind, Except.bind] at h
  repeat' split at h
  all_goals cases h
  exact ⟨Nat.succ_pos _, Nat.succ_pos _⟩

/-- A lossless image has no empty dimension. -/
theorem LosslessHeader.size_pos_of_read {payload : Bytes} {header : LosslessHeader}
    (h : (read.ofStart payload).result = .ok header) :
    0 < header.size.width ∧ 0 < header.size.height := by
  simp only [Cursor.Read.ofStart, read, Cursor.Read.result_run_bind_eq_ok,
    Cursor.Read.result_run_ensure_eq_ok, Cursor.Read.run_pure, result_pure, Except.ok.injEq,
    exists_const, Prod.exists] at h
  obtain ⟨_, -, -, _, -, -, stream, -, _, _, _, _, hfields, -, _, _, -, _, -, rfl⟩ := h
  exact size_pos_of_readFields hfields

/-! ### The use of alpha -/

/-- The bit behind the two dimensions of a lossless image, in its fifth byte. -/
def Bytes.alphaBit (payload : Bytes) : Bool := (payload.getD 4 0).toNat.testBit 4

namespace LosslessHeader

theorem alphaIsUsed_of_readFields {b₀ b₁ b₂ b₃ b₄ : UInt8} {rest : Bytes} {size : Size}
    {alphaIsUsed : Bool} {version : Nat} {after : BitStream}
    (h : readFields (.ofBytes .leastSignificantFirst (b₁ :: b₂ :: b₃ :: b₄ :: rest)) =
      .ok ((size, alphaIsUsed, version), after)) :
    alphaIsUsed = Bytes.alphaBit (b₀ :: b₁ :: b₂ :: b₃ :: b₄ :: rest) := by
  have hbit : alphaIsUsed = ((b₄.toNat.testBit 4).toNat + 2 * 0 == 1) := by
    cases h
    rfl
  rw [hbit]
  change _ = b₄.toNat.testBit 4
  cases b₄.toNat.testBit 4 <;> rfl

/-- A lossless image uses alpha exactly if its bit says so. -/
theorem alphaIsUsed_of_read {payload : Bytes} {header : LosslessHeader}
    (h : (read.ofStart payload).result = .ok header) : header.alphaIsUsed = payload.alphaBit := by
  match payload with
  | [] | [_] | [_, _] | [_, _, _] | [_, _, _, _] => cases h
  | b₀ :: b₁ :: b₂ :: b₃ :: b₄ :: rest =>
    simp only [Cursor.Read.ofStart, read, Cursor.Read.result_run_bind_eq_ok,
      Cursor.Read.result_run_ensure_eq_ok, Cursor.Read.snd_run_ensure, Cursor.Read.run_pure,
      result_pure, Except.ok.injEq, exists_const, Prod.exists] at h
    obtain ⟨_, -, -, _, -, -, stream, hstream, _, _, _, _, hfields, -, _, _, -, _, -, rfl⟩ := h
    obtain rfl := Except.ok.inj hstream
    exact alphaIsUsed_of_readFields hfields

end LosslessHeader

namespace ImageFormat

/-- The payload begins with the headers of an image of the given size. -/
def Accepts (format : ImageFormat) (payload : Bytes) (size : Size) : Prop :=
  ∃ info, (ImageInfo.inspect {} format payload).result = .ok info ∧ info.size = size

/-- **Settings do not decide.** An image that is accepted under some settings is accepted under
all others, with the same size. -/
theorem accepts_iff (config : Config) {format : ImageFormat} {payload : Bytes} {size : Size} :
    format.Accepts payload size ↔
      ∃ info, (ImageInfo.inspect config format payload).result = .ok info ∧ info.size = size := by
  cases format with
  | lossy =>
    simp only [Accepts, ImageInfo.inspect_lossy_eq_ok_iff]
    constructor <;>
    · rintro ⟨_, ⟨header, h, rfl⟩, rfl⟩
      exact ⟨_, ⟨header, h, rfl⟩, rfl⟩
  | lossless => simp only [Accepts, ImageInfo.inspect_lossless_eq_ok_iff]

theorem accepts_of_toOption {format : ImageFormat} {payload : Bytes} {size : Size}
    (h : (ImageInfo.inspect {} format payload).result.toOption.map ImageInfo.size = some size) :
    format.Accepts payload size := by
  obtain ⟨info, hinfo, hsize⟩ := Option.map_eq_some_iff.mp h
  exact ⟨info, toOption_result_eq_some_iff.mp hinfo, hsize⟩

/-- An accepted image has no empty dimension. -/
theorem Accepts.size_pos {format : ImageFormat} {payload : Bytes} {size : Size}
    (h : format.Accepts payload size) : 0 < size.width ∧ 0 < size.height := by
  obtain ⟨info, hinfo, rfl⟩ := h
  cases format with
  | lossy =>
    obtain ⟨header, hheader, rfl⟩ := ImageInfo.inspect_lossy_eq_ok_iff.mp hinfo
    exact KeyFrameHeader.size_pos_of_read hheader
  | lossless =>
    obtain ⟨header, hheader, rfl⟩ := ImageInfo.inspect_lossless_eq_ok_iff.mp hinfo
    exact LosslessHeader.size_pos_of_read hheader

end ImageFormat

namespace AlphaInfo

/-- The payload begins with the headers of an alpha plane. -/
def Accepts (payload : Bytes) : Prop :=
  ∃ info, (inspect payload).result = .ok info

theorem accepts_of_toOption {payload : Bytes}
    (h : (inspect payload).result.toOption.isSome) : Accepts payload := by
  obtain ⟨info, hinfo⟩ := Option.isSome_iff_exists.mp h
  exact ⟨info, toOption_result_eq_some_iff.mp hinfo⟩

end AlphaInfo

end WebP
