import WebP.Proofs.Container.Steps

/-!
# Inputs that are longer or shorter than a file

A file declares its length in its first bytes, and nothing but that length says where its chunks
end. So what follows a file is not looked at, and an input that ends before the declared end is
refused as incomplete before any chunk is read. A fault that more input cannot mend is found
again, with the same notes, however the input goes on.

## Main definitions

* `WebP.RiffHeader.spanIn`: what a file header tells about an input of a given length.
* `WebP.Fault.incomplete`: the fault of an input that is a part of a file.

## Main results

* `WebP.parse_append`: more input changes nothing unless the fault was recoverable.
* `WebP.parse_take`: each part of a file is refused as incomplete.
* `WebP.parse_extended_and_truncated`: both of them, for accepted and for refused inputs.
-/

namespace WebP

open Outcome

variable {config : Config} {data : Bytes}

/-- The fault of an input that has the first `available` bytes of a file of `length` bytes. -/
def Fault.incomplete (length available : Nat) : Fault :=
  if available < 20 then
    ⟨.needMoreData, [.inputTooShort available]⟩
  else
    ⟨.truncatedChunk, [.fileTruncated length available, .readingChunk .riff]⟩

/-! ### The header of a file -/

namespace RiffHeader

variable {riff : RiffHeader} {available longer shorter : Nat} {span : Span}

/-- Where the chunks lie in an input of `available` bytes that begins with the header. -/
def spanIn (riff : RiffHeader) (available : Nat) : Except Fault Span :=
  if 8 ≤ riff.length then
    if riff.length ≤ maxPayloadLength then
      if riff.length + 8 ≤ available then
        .ok ⟨12, riff.length + 8⟩
      else
        .error ⟨.truncatedChunk, [.fileTruncated (riff.length + 8) available, .readingChunk .riff]⟩
    else
      .error ⟨.invalidInput, [.riffTooLarge, .readingChunk .riff]⟩
  else
    .error ⟨.invalidInput, [.riffTooSmall, .readingChunk .riff]⟩

theorem spanIn_eq_ok_iff :
    riff.spanIn available = .ok span ↔
      8 ≤ riff.length ∧ riff.length ≤ maxPayloadLength ∧ riff.length + 8 ≤ available ∧
        span = ⟨12, riff.length + 8⟩ := by
  unfold RiffHeader.spanIn
  split_ifs <;> simp only [*, Except.ok.injEq, true_and, false_and, @eq_comm _ span]

/-- A longer input tells the same, unless the shorter one was incomplete. -/
theorem spanIn_of_le (settled : ∀ fault, riff.spanIn available = .error fault →
    ¬ fault.status.isRecoverable) (hle : available ≤ longer) :
    riff.spanIn longer = riff.spanIn available := by
  unfold RiffHeader.spanIn at settled ⊢
  split_ifs at settled ⊢ with hge hmax hlonger havailable
  · rfl
  · exact absurd rfl (settled _ rfl)
  · omega
  · exact absurd rfl (settled _ rfl)
  · rfl
  · rfl

/-- An input that ends before the declared end is truncated. -/
theorem spanIn_of_lt (h : riff.spanIn available = .ok span) (hlt : shorter < span.stop) :
    riff.spanIn shorter =
      .error ⟨.truncatedChunk, [.fileTruncated span.stop shorter, .readingChunk .riff]⟩ := by
  obtain ⟨hge, hmax, -, rfl⟩ := spanIn_eq_ok_iff.mp h
  rw [spanIn, if_pos hge, if_pos hmax, if_neg (Nat.not_le.mpr hlt)]

/-- The header of a file is read from the first twelve bytes. -/
theorem result_read_append (h : 12 ≤ data.length) (more : Bytes) :
    (read.ofStart (data ++ more)).result = (read.ofStart data).result := by
  obtain ⟨name, form, -, -, hdata⟩ := Bytes.eq_riff_append h
  have hread (back : Bytes) :=
    result_read ⟨name, data.declaredLength⟩ form back data.declaredLength_lt
  have hmore : data ++ more = (ChunkHeader.mk name data.declaredLength).encode ++
      (form.bytes ++ (data.drop 12 ++ more)) :=
    calc data ++ more
        = ((ChunkHeader.mk name data.declaredLength).encode ++ (form.bytes ++ data.drop 12)) ++
            more := congrArg (· ++ more) hdata
      _ = _ := by simp only [List.append_assoc]
  calc (read.ofStart (data ++ more)).result
      = _ := (congrArg (fun bytes => (read.ofStart bytes).result) hmore).trans (hread _)
    _ = _ := (hread (data.drop 12)).symm
    _ = (read.ofStart data).result :=
      (congrArg (fun bytes => (read.ofStart bytes).result) hdata).symm

end RiffHeader

/-! ### Where the chunks lie -/

theorem chunkSpan_of_short (h : data.length < 20) (length : Nat) :
    (chunkSpan data).result = .error (.incomplete length data.length) := by
  have hshort : ¬ RiffHeader.encodedLength + ChunkHeader.encodedLength ≤ data.length :=
    Nat.not_le.mpr h
  rw [Fault.incomplete, if_pos h, chunkSpan, result_bind, result_ensure,
    if_neg hshort]
  rfl

/-- A condition lets the rest of a sequence run, or is the fault. -/
theorem Outcome.result_ensure_bind {β : Type} (p : Prop) [Decidable p] (cause : Cause)
    (notes : List Note) (next : Unit → Parsed β) :
    (ensure p cause notes >>= next).result =
      if p then (next ()).result else .error ⟨cause, notes⟩ := by
  rw [result_bind, result_ensure]
  split <;> rfl

/-- Of an input that is long enough to begin, the header and the length decide. -/
theorem result_chunkSpan (h : 20 ≤ data.length) :
    (chunkSpan data).result =
      ((RiffHeader.read.ofStart data).noting (.readingChunk .riff)).result >>= fun riff =>
        riff.spanIn data.length := by
  have hlong : RiffHeader.encodedLength + ChunkHeader.encodedLength ≤ data.length := h
  rw [chunkSpan, result_ensure_bind, if_pos hlong, result_bind]
  refine congrArg _ (funext fun riff => ?_)
  rw [result_ensure_bind, result_ensure_bind, result_ensure_bind, result_bind, result_emitIf]
  rfl

/-- Where the chunks lie does not change with more input, unless bytes of the file were missing. -/
theorem chunkSpan_append (settled : ∀ fault, (chunkSpan data).result = .error fault →
    ¬ fault.status.isRecoverable) (more : Bytes) :
    (chunkSpan (data ++ more)).result = (chunkSpan data).result := by
  rcases Nat.lt_or_ge data.length 20 with hshort | hlong
  · have hstatus : (Fault.incomplete 0 data.length).status = .needMoreData := by
      rw [Fault.incomplete, if_pos hshort]
      rfl
    refine absurd ?_ (settled _ (chunkSpan_of_short hshort 0))
    rw [hstatus]
    rfl
  · have hle : data.length ≤ (data ++ more).length := by
      rw [List.length_append]
      omega
    rw [result_chunkSpan hlong] at settled ⊢
    rw [result_chunkSpan (Nat.le_trans hlong hle), result_noting,
      RiffHeader.result_read_append (by omega), ← result_noting]
    cases hread : ((RiffHeader.read.ofStart data).noting (.readingChunk .riff)).result with
    | error fault => rfl
    | ok riff =>
      rw [hread] at settled
      exact RiffHeader.spanIn_of_le settled hle

/-- In an input that ends before the end of its file no chunks are looked for. -/
theorem chunkSpan_take {span : Span} (h : (chunkSpan data).result = .ok span) {n : Nat}
    (hlt : n < span.stop) :
    (chunkSpan (data.take n)).result = .error (.incomplete span.stop n) := by
  obtain ⟨hframed, hspan⟩ := chunkSpan_eq_ok_iff.mp h
  have hcomplete := hframed.complete
  have hlength : (data.take n).length = n := by
    rw [hspan] at hlt
    rw [List.length_take]
    exact Nat.min_eq_left (Nat.le_trans (Nat.le_of_lt hlt) hcomplete)
  rcases Nat.lt_or_ge n 20 with hshort | hlong
  · rw [chunkSpan_of_short (by rwa [hlength]) span.stop, hlength]
  · have htake : 12 ≤ (data.take n).length := by omega
    have hread := RiffHeader.result_read_append htake (data.drop n)
    rw [List.take_append_drop] at hread
    rw [result_chunkSpan hframed.length_ge, result_noting, hread] at h
    rw [result_chunkSpan (by rwa [hlength]), result_noting, hlength, Fault.incomplete,
      if_neg (Nat.not_lt.mpr hlong)]
    cases hriff : (RiffHeader.read.ofStart (data.take n)).result with
    | error fault =>
      rw [hriff] at h
      cases h
    | ok riff =>
      rw [hriff] at h
      exact RiffHeader.spanIn_of_lt h hlt

/-! ### A whole input -/

/-- A walker over a span of the input does not see what comes behind it. -/
theorem Walker.over_append {span : Span} (h : span.stop ≤ data.length) (more : Bytes) :
    Walker.over (data ++ more) span = Walker.over data span := by
  have hmore : span.stop ≤ (data ++ more).length := by
    rw [List.length_append]
    omega
  have hslice (start : Nat) :
      (data ++ more).slice ⟨start, span.stop⟩ = data.slice ⟨start, span.stop⟩ := by
    refine Bytes.slice_append ?_ more
    exact h
  simp only [Walker.over, Nat.min_eq_left h, Nat.min_eq_left hmore, hslice]

/-- **More input.** What was found out about an input stays so with more bytes behind it, unless
it was a fault that says that bytes are missing. -/
theorem parse_append (settled : ∀ fault, (parse config data).result = .error fault →
    ¬ fault.status.isRecoverable) (more : Bytes) :
    (parse config (data ++ more)).result = (parse config data).result := by
  rw [result_parse] at settled
  rw [result_parse, result_parse, FileHeader.read, FileHeader.read, result_bind, result_bind]
  rw [FileHeader.read, result_bind] at settled
  have hsame : (chunkSpan (data ++ more)).result = (chunkSpan data).result := by
    refine chunkSpan_append (fun fault hfault => settled fault ?_) more
    rw [hfault]
    rfl
  rw [hsame]
  cases hspan : (chunkSpan data).result with
  | error fault => rfl
  | ok span =>
    obtain ⟨hframed, rfl⟩ := chunkSpan_eq_ok_iff.mp hspan
    change Outcome.result (_ >>= _) = Outcome.result (_ >>= _)
    rw [Walker.over_append hframed.complete]

/-- **Less input.** A part of an accepted file that lacks bytes at the end is refused as
incomplete. -/
theorem parse_take {header : FileHeader} (h : (parse config data).result = .ok header) {n : Nat}
    (hlt : n < header.fileLength) :
    (parse config (data.take n)).result = .error (.incomplete header.fileLength n) := by
  rw [result_parse] at h ⊢
  obtain ⟨hframed, -, -, file, -, -, rfl⟩ := FileHeader.read_eq_ok_iff.mp h
  have htake := chunkSpan_take (chunkSpan_eq_ok_iff.mpr ⟨hframed, rfl⟩) hlt
  rw [FileHeader.read, result_bind, htake]
  rfl

/-- **Longer and shorter inputs.** An accepted file is described in the same way whatever follows
it, and with any bytes missing at its end it is refused: for want of data if it is too short to
begin, and else as truncated. An input with a fault that more data cannot mend has the same fault
however it goes on. -/
theorem parse_extended_and_truncated (config : Config) (data : Bytes) :
    (∀ header, (parse config data).result = .ok header →
      (∀ more, (parse config (data ++ more)).result = .ok header) ∧
      ∀ n < header.fileLength,
        (parse config (data.take n)).result = .error (.incomplete header.fileLength n)) ∧
    ∀ fault, (parse config data).result = .error fault → ¬ fault.status.isRecoverable →
      ∀ more, (parse config (data ++ more)).result = .error fault := by
  refine ⟨fun header h => ⟨fun more => ?_, fun n hn => parse_take h hn⟩, ?_⟩
  · rw [parse_append (fun fault hfault => by rw [h] at hfault; cases hfault), h]
  · intro fault h hfatal more
    rw [parse_append (fun other hother => ?_), h]
    obtain rfl := Except.error.inj (h.symm.trans hother)
    exact hfatal

/-- A file with a single image of one pixel. -/
def singlePixel : Bytes :=
  (ChunkHeader.mk .riff 18).encode ++ FourCC.webp.bytes ++
    (ChunkHeader.mk .vp8l 6).encode ++ [0x2f, 0, 0, 0, 0, 0]

/-- The file is accepted whatever follows it, and refused with its last byte missing. With a byte
in front of it, it is no file, however it goes on. -/
theorem parse_singlePixel_extended_and_truncated :
    (∃ header, (parse {} singlePixel).result = .ok header ∧ header.fileLength = 26 ∧
      (∀ more, (parse {} (singlePixel ++ more)).result = .ok header) ∧
      (parse {} (singlePixel.take 25)).result = .error (.incomplete 26 25)) ∧
    ∀ more, (parse {} (0 :: singlePixel ++ more)).result =
      .error ⟨.invalidInput, [.notRiff, .readingChunk .riff]⟩ := by
  have hread : (parse {} singlePixel).result.toOption.map FileHeader.fileLength = some 26 := by
    decide +kernel
  obtain ⟨header, hheader, hlength⟩ := Option.map_eq_some_iff.mp hread
  rw [Outcome.toOption_result_eq_some_iff] at hheader
  obtain ⟨hmore, hpart⟩ := (parse_extended_and_truncated {} singlePixel).1 header hheader
  have hfault : (parse {} (0 :: singlePixel)).result =
      .error ⟨.invalidInput, [.notRiff, .readingChunk .riff]⟩ := by decide +kernel
  rw [hlength] at hpart
  refine ⟨⟨header, hheader, hlength, hmore, hpart 25 (by decide)⟩, ?_⟩
  exact (parse_extended_and_truncated {} (0 :: singlePixel)).2 _ hfault Bool.false_ne_true

end WebP
