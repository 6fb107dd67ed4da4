import WebP.Proofs.Container.CutShort
import WebP.Proofs.Container.Extension

/-!
# Inputs of which bytes are missing

Bytes are missing in two different ways. An input is shorter than the file that it begins, which
more input can mend, or the file is all there and is cut short inside, which nothing can mend. The
status is a recoverable one in both cases. The notes on the fault tell them apart: a fault that
says that the input is incomplete does not arise inside a file.

## Main definitions

* `WebP.Fault.IsIncomplete`: the fault of an input that is shorter than its file.

## Main results

* `WebP.failsWith_isIncomplete_parse_iff`: such a fault arises from the header of a file only.
* `WebP.recoverable_incomplete_or_cutShort`: what a recoverable fault tells about an input.
-/

namespace WebP

open Outcome Cursor.Read

/-! ### The fault of an incomplete input -/

/-- The fault says that the input ends before its file does. -/
def Fault.IsIncomplete (fault : Fault) : Prop :=
  ∃ length available, fault = .incomplete length available

/-- Notes that come last on the fault of an incomplete input. -/
def Note.IsOutermost (note : Note) : Prop :=
  note = .readingChunk .riff ∨ ∃ length, note = .inputTooShort length

namespace Fault

theorem isRecoverable_incomplete (length available : Nat) :
    (incomplete length available).status.isRecoverable := by
  unfold incomplete
  split <;> rfl

theorem IsIncomplete.isRecoverable {fault : Fault} (h : fault.IsIncomplete) :
    fault.status.isRecoverable := by
  obtain ⟨length, available, rfl⟩ := h
  exact isRecoverable_incomplete length available

theorem IsIncomplete.getLast? {fault : Fault} (h : fault.IsIncomplete) :
    ∃ note, fault.notes.getLast? = some note ∧ note.IsOutermost := by
  obtain ⟨length, available, rfl⟩ := h
  unfold incomplete
  split
  · exact ⟨_, rfl, .inr ⟨available, rfl⟩⟩
  · exact ⟨_, rfl, .inl rfl⟩

theorem not_isIncomplete_of_getLast? {fault : Fault} {note : Note}
    (h : fault.notes.getLast? = some note) (hnote : ¬ note.IsOutermost) :
    ¬ fault.IsIncomplete := by
  intro hfault
  obtain ⟨last, hlast, houtermost⟩ := hfault.getLast?
  obtain rfl := Option.some.inj (h.symm.trans hlast)
  exact hnote houtermost

end Fault

theorem Note.not_isOutermost_readingField (chunk : FourCC) (field : String) :
    ¬ (Note.readingField chunk field).IsOutermost := by
  rintro (⟨⟨⟩⟩ | ⟨_, ⟨⟩⟩)

theorem Note.not_isOutermost_readingChunk {name : FourCC} (h : name ≠ .riff) :
    ¬ (Note.readingChunk name).IsOutermost := by
  rintro (⟨⟨⟩⟩ | ⟨_, ⟨⟩⟩)
  exact h rfl

section Steps

variable {α β : Type}

theorem not_isIncomplete_of_not_runsOut {x : Except Fault α} (h : ¬ RunsOut x) :
    ¬ FailsWith Fault.IsIncomplete x :=
  fun hx => h (hx.imp fun _ hfault => hfault.isRecoverable)

/-- The last note decides. -/
theorem not_isIncomplete_noting {note : Note} (hnote : ¬ note.IsOutermost) (x : Parsed α) :
    ¬ FailsWith Fault.IsIncomplete (x.noting note).result := by
  rw [result_noting, failsWith_mapError_iff]
  rintro ⟨fault, -, hfault⟩
  refine Fault.not_isIncomplete_of_getLast? ?_ hnote hfault
  exact List.getLast?_concat

theorem not_isIncomplete_bind {x : Parsed α} {next : α → Parsed β}
    (hx : ¬ FailsWith Fault.IsIncomplete x.result)
    (hnext : ∀ a, ¬ FailsWith Fault.IsIncomplete (next a).result) :
    ¬ FailsWith Fault.IsIncomplete (x >>= next).result := by
  rw [result_bind, failsWith_bind_iff]
  rintro (h | ⟨a, -, h⟩)
  · exact hx h
  · exact hnext a h

/-- A condition whose fault is another one than missing bytes. -/
theorem not_isIncomplete_ensure_bind {p : Prop} [Decidable p] {cause : Cause} {notes : List Note}
    {next : Unit → Parsed β} (hcause : ¬ cause.status.isRecoverable)
    (hnext : ¬ FailsWith Fault.IsIncomplete (next ()).result) :
    ¬ FailsWith Fault.IsIncomplete (Outcome.ensure p cause notes >>= next).result :=
  not_isIncomplete_bind (not_isIncomplete_of_not_runsOut (not_runsOut_ensure hcause))
    fun _ => hnext

end Steps

/-! ### Inside a file -/

theorem AlphaHeader.not_isIncomplete_read (cursor : Cursor) :
    ¬ FailsWith Fault.IsIncomplete (read.run cursor).1.result := by
  intro h
  rcases failsWith_run_bind_iff.mp h with hfield | ⟨header, -, h⟩
  · exact not_isIncomplete_noting (Note.not_isOutermost_readingField _ _) _ hfield
  · rcases failsWith_run_ensure_bind_iff.mp h with ⟨-, hmethod⟩ | ⟨-, h⟩
    · exact absurd hmethod.isRecoverable Bool.false_ne_true
    · rcases failsWith_run_ensure_bind_iff.mp h with ⟨-, hlevel⟩ | ⟨-, h⟩
      · exact absurd hlevel.isRecoverable Bool.false_ne_true
      · refine failsWith_ok_iff.mp ((failsWith_run_bind_of_ok (a := ()) ?_ rfl).mp h)
        exact result_emitIf _ _

namespace AlphaInfo

theorem not_isIncomplete_readTransforms (compression : AlphaCompression) (cursor : Cursor) :
    ¬ FailsWith Fault.IsIncomplete ((readTransforms compression).run cursor).1.result := by
  intro h
  cases compression with
  | uncompressed => exact failsWith_ok_iff.mp h
  | lossless =>
    replace h := (failsWith_run_bind_of_ok rfl rfl).mp h
    rcases failsWith_run_bind_iff.mp h with hchain | ⟨_, -, h⟩
    · exact not_isIncomplete_noting (Note.not_isOutermost_readingChunk (by decide)) _ hchain
    · exact failsWith_ok_iff.mp h

theorem not_isIncomplete_inspect (payload : Bytes) :
    ¬ FailsWith Fault.IsIncomplete (inspect payload).result := by
  intro h
  rcases failsWith_run_bind_iff.mp h with hheader | ⟨header, -, h⟩
  · exact AlphaHeader.not_isIncomplete_read _ hheader
  · rcases failsWith_run_bind_iff.mp h with htransforms | ⟨_, -, h⟩
    · exact not_isIncomplete_readTransforms _ _ htransforms
    · exact failsWith_ok_iff.mp ((failsWith_run_bind_of_ok rfl rfl).mp h)

end AlphaInfo

theorem ImageInfo.not_isIncomplete_inspect (config : Config) (format : ImageFormat)
    (payload : Bytes) : ¬ FailsWith Fault.IsIncomplete (inspect config format payload).result := by
  refine not_isIncomplete_noting (Note.not_isOutermost_readingChunk ?_) _
  cases format <;> decide

/-- A walker does not stop as an incomplete input does. -/
theorem Walker.not_isIncomplete_next (walker : Walker) :
    ¬ FailsWith Fault.IsIncomplete walker.next := by
  rintro ⟨fault, hn, hincomplete⟩
  rcases next_eq_error_iff.mp hn with ⟨-, -, rfl⟩ | ⟨header, body, -, -, hcases⟩
  · exact nomatch hincomplete.getLast?
  · rcases hcases with ⟨-, rfl⟩ | ⟨-, -, rfl⟩
    · exact absurd hincomplete.isRecoverable Bool.false_ne_true
    · obtain ⟨length, available, h⟩ := hincomplete
      unfold Fault.incomplete at h
      split at h <;> cases h

/-- Neither does the walk over a range. -/
theorem Walker.not_isIncomplete_walk {walker : Walker} {fault : Fault}
    (h : walker.walk.fault = some fault) : ¬ fault.IsIncomplete := by
  have hwalk : walker.walk = ⟨walker.walk.chunks ++ [], some fault⟩ := by
    rw [List.append_nil, ← h]
  obtain ⟨run, rest, -, -, -, hrest⟩ := exists_run_of_walk hwalk (.inr (Option.some_ne_none fault))
  exact fun hfault => not_isIncomplete_next _ ⟨fault, next_of_walk_eq_fault hrest, hfault⟩

namespace Assembly

variable {config : Config} {file : Assembly} {chunk : Chunk} {format : ImageFormat}

theorem not_isIncomplete_addAlpha :
    ¬ FailsWith Fault.IsIncomplete (file.addAlpha chunk).result := by
  refine not_isIncomplete_ensure_bind (by decide) ?_
  refine not_isIncomplete_ensure_bind (by decide) ?_
  refine not_isIncomplete_ensure_bind (by decide) ?_
  refine not_isIncomplete_ensure_bind (by decide) ?_
  exact not_isIncomplete_bind (AlphaInfo.not_isIncomplete_inspect _) fun _ => failsWith_ok_iff.mp

theorem not_isIncomplete_addImage :
    ¬ FailsWith Fault.IsIncomplete (file.addImage config format chunk).result := by
  refine not_isIncomplete_ensure_bind (by decide) ?_
  refine not_isIncomplete_ensure_bind (by decide) ?_
  refine not_isIncomplete_ensure_bind (by decide) ?_
  refine not_isIncomplete_bind (ImageInfo.not_isIncomplete_inspect _ _ _) fun info => ?_
  refine not_isIncomplete_bind (not_isIncomplete_of_not_runsOut not_runsOut_stillCanvas) fun _ => ?_
  exact failsWith_ok_iff.mp

theorem not_isIncomplete_addFrame (hkind : chunk.kind = .frame) :
    ¬ FailsWith Fault.IsIncomplete (file.addFrame config chunk).result := by
  have hanmf : ¬ (Note.readingChunk chunk.kind.name).IsOutermost := by
    rw [hkind]
    exact Note.not_isOutermost_readingChunk (by decide)
  refine not_isIncomplete_ensure_bind (by decide) ?_
  refine not_isIncomplete_ensure_bind (by decide) ?_
  refine not_isIncomplete_bind (fun h => ?_) fun _ => ?_
  · -- a payload that is too short for a header has another note
    refine Fault.not_isIncomplete_of_getLast? rfl ?_ (failsWith_ensure_iff.mp h).2
    rintro (⟨⟨⟩⟩ | ⟨_, ⟨⟩⟩)
  refine not_isIncomplete_bind (not_isIncomplete_noting hanmf _) fun header => ?_
  refine not_isIncomplete_bind failsWith_ok_iff.mp fun _ => ?_
  refine not_isIncomplete_ensure_bind (by decide) ?_
  cases file.canvas with
  | none => exact fun h => absurd (failsWith_error_iff.mp h).isRecoverable Bool.false_ne_true
  | some canvas =>
    refine not_isIncomplete_ensure_bind (by decide) ?_
    refine not_isIncomplete_bind (not_isIncomplete_noting ?_ _) fun _ => failsWith_ok_iff.mp
    exact Note.not_isOutermost_readingChunk (by decide)

/-- No chunk is refused as an incomplete input is. -/
theorem not_isIncomplete_add : ¬ FailsWith Fault.IsIncomplete (file.add config chunk).result := by
  refine not_isIncomplete_bind failsWith_ok_iff.mp fun _ => ?_
  refine not_isIncomplete_bind ?_ fun _ => failsWith_ok_iff.mp
  rw [interpret]
  cases hkind : chunk.kind with
  | canvas => exact not_isIncomplete_of_not_runsOut not_runsOut_addCanvas
  | animation => exact not_isIncomplete_of_not_runsOut not_runsOut_addAnimation
  | frame => exact not_isIncomplete_addFrame hkind
  | lossy | lossless => exact not_isIncomplete_addImage
  | alpha => exact not_isIncomplete_addAlpha
  | iccp => exact not_isIncomplete_of_not_runsOut not_runsOut_addProfile
  | exif | xmp | unknown name => exact failsWith_ok_iff.mp

end Assembly

/-! ### The header of a file -/

variable {config : Config} {data : Bytes}

/-- Where the chunks lie is not known only because the input ends before its file does. -/
theorem incomplete_of_runsOut_chunkSpan (h : RunsOut (chunkSpan data).result) :
    (chunkSpan data).result = .error (.incomplete (data.declaredLength + 8) data.length) ∧
      (data.length < 20 ∨ data.length < data.declaredLength + 8) := by
  rcases Nat.lt_or_ge data.length 20 with hshort | hlong
  · exact ⟨chunkSpan_of_short hshort _, .inl hshort⟩
  · obtain ⟨name, form, -, -, hdata⟩ := Bytes.eq_riff_append (by omega : 12 ≤ data.length)
    have hread := RiffHeader.result_read ⟨name, data.declaredLength⟩ form (data.drop 12)
      data.declaredLength_lt
    rw [← hdata] at hread
    dsimp only at hread
    rw [result_chunkSpan hlong, result_noting, hread] at h ⊢
    rw [Fault.incomplete, if_neg (Nat.not_lt.mpr hlong)]
    split_ifs at h ⊢ with hname hform
    · -- the codes are those of a file, so the declared length decides
      change RunsOut (RiffHeader.spanIn ⟨data.declaredLength⟩ data.length) at h
      change RiffHeader.spanIn ⟨data.declaredLength⟩ data.length = _ ∧ _
      unfold RiffHeader.spanIn at h ⊢
      split_ifs at h ⊢ with hge hmax hcomplete
      · exact (failsWith_ok_iff.mp h).elim
      · exact ⟨rfl, .inr (Nat.not_le.mp hcomplete)⟩
      · exact absurd (failsWith_error_iff.mp h) Bool.false_ne_true
      · exact absurd (failsWith_error_iff.mp h) Bool.false_ne_true
    · exact absurd (failsWith_error_iff.mp h) Bool.false_ne_true
    · exact absurd (failsWith_error_iff.mp h) Bool.false_ne_true

/-- **Incomplete inputs.** A fault says that the input is incomplete exactly if where the chunks lie
is not known for want of bytes; inside a file there is no such fault. -/
theorem failsWith_isIncomplete_parse_iff :
    FailsWith Fault.IsIncomplete (parse config data).result ↔ RunsOut (chunkSpan data).result := by
  rw [result_parse, FileHeader.read, result_bind, failsWith_bind_iff]
  constructor
  · rintro (h | ⟨span, -, h⟩)
    · exact h.imp fun _ hfault => hfault.isRecoverable
    · refine absurd h (not_isIncomplete_bind (fun hfold => ?_) fun file => ?_)
      · rcases Walker.Walk.failsWith_fold_iff.mp hfold with
          ⟨_, chunk, _, file, -, -, hadd⟩ | ⟨_, fault, -, hstop, hfault⟩
        · exact Assembly.not_isIncomplete_add hadd
        · exact Walker.not_isIncomplete_walk hstop hfault
      · exact not_isIncomplete_bind (not_isIncomplete_of_not_runsOut Assembly.not_runsOut_check)
          fun _ => failsWith_ok_iff.mp
  · intro h
    exact .inl ⟨_, (incomplete_of_runsOut_chunkSpan h).1, _, _, rfl⟩

/-- With all the bytes that a file may have, an input is not incomplete any more. -/
theorem exists_append_not_isIncomplete (config : Config) (data : Bytes) :
    ∃ more, ¬ FailsWith Fault.IsIncomplete (parse config (data ++ more)).result := by
  obtain ⟨more, hmore⟩ : ∃ more : Bytes, more.length = 2 ^ 32 + 8 :=
    ⟨.replicate (2 ^ 32 + 8) 0, List.length_replicate⟩
  refine ⟨more, fun h => ?_⟩
  have hlength : (data ++ more).length = data.length + more.length := List.length_append
  have hdeclared := (data ++ more).declaredLength_lt
  rcases (incomplete_of_runsOut_chunkSpan (failsWith_isIncomplete_parse_iff.mp h)).2
    with hshort | hshort <;> omega

/-- What is told about a file does not change with bytes behind its declared end. -/
theorem result_parse_append_of_isFramed (h : IsFramed data) (more : Bytes) :
    (parse config (data ++ more)).result = (parse config data).result := by
  have hspan := chunkSpan_eq_ok_iff.mpr ⟨h, rfl⟩
  have hmore : (chunkSpan (data ++ more)).result = .ok ⟨12, data.declaredLength + 8⟩ := by
    rw [chunkSpan_append (fun fault hfault => ?_) more, hspan]
    rw [hspan] at hfault
    cases hfault
  rw [result_parse, result_parse, FileHeader.read, FileHeader.read, result_bind, result_bind,
    hspan, hmore]
  change Outcome.result (_ >>= _) = Outcome.result (_ >>= _)
  rw [Walker.over_append h.complete]

/-- **What a recoverable fault tells about an input.** The input is shorter than the shortest file
or than the length that it declares, and then there is more input with which the fault is another
one; or no byte of the file is missing and the file is cut short inside, and then the fault is the
same however the input goes on. An input with all the bytes that it declares is refused in this way
exactly if it is the header of a file with chunks that are cut short inside. -/
theorem recoverable_incomplete_or_cutShort (config : Config) (data : Bytes) :
    (∀ fault, (parse config data).result = .error fault → fault.status.isRecoverable →
      (data.length < 20 ∨ data.length < data.declaredLength + 8) ∧
          (∃ more, (parse config (data ++ more)).result ≠ .error fault) ∨
        IsFramed data ∧ data.IsCutShort ∧
          ∀ more, (parse config (data ++ more)).result = .error fault) ∧
    (20 ≤ data.length → data.declaredLength + 8 ≤ data.length →
      ((∃ fault, (parse config data).result = .error fault ∧ fault.status.isRecoverable) ↔
        IsFramed data ∧ data.IsCutShort)) := by
  refine ⟨fun fault hfault hstatus => ?_, fun hlong hcomplete => ?_⟩
  · rcases runsOut_parse_iff.mp ⟨fault, hfault, hstatus⟩ with hspan | ⟨hframed, hcut⟩
    · refine .inl ⟨(incomplete_of_runsOut_chunkSpan hspan).2, ?_⟩
      obtain ⟨stop, hstop, hincomplete⟩ : FailsWith Fault.IsIncomplete (parse config data).result :=
        failsWith_isIncomplete_parse_iff.mpr hspan
      obtain rfl := Except.error.inj (hfault.symm.trans hstop)
      obtain ⟨more, hmore⟩ := exists_append_not_isIncomplete config data
      exact ⟨more, fun h => hmore ⟨fault, h, hincomplete⟩⟩
    · exact .inr ⟨hframed, hcut, fun more =>
        (result_parse_append_of_isFramed hframed more).trans hfault⟩
  · refine runsOut_parse_iff.trans (or_iff_right fun hspan => ?_)
    rcases (incomplete_of_runsOut_chunkSpan hspan).2 with hshort | hshort <;> omega

/-- A file with a frame of an animation that has no header. -/
def emptyFrame : Bytes :=
  (ChunkHeader.mk .riff 44).encode ++ FourCC.webp.bytes ++
    (ChunkHeader.mk .vp8x 10).encode ++ [2, 0, 0, 0, 0, 0, 0, 0, 0, 0] ++
    (ChunkHeader.mk .anim 6).encode ++ [0, 0, 0, 0, 0, 0] ++
    (ChunkHeader.mk .anmf 0).encode

/-- No byte of the file is missing, and it is refused for want of bytes. -/
theorem parse_emptyFrame : emptyFrame.declaredLength + 8 = emptyFrame.length ∧
    (parse {} emptyFrame).result = .error ⟨.truncatedChunk, [.invalidPayloadLength .anmf 0]⟩ := by
  decide +kernel

/-- The file is refused in the same way however it goes on. Its first 40 bytes are refused as
incomplete, and there is more input with which they are not. -/
theorem recoverable_incomplete_or_cutShort_emptyFrame :
    (∀ more, (parse {} (emptyFrame ++ more)).result =
      .error ⟨.truncatedChunk, [.invalidPayloadLength .anmf 0]⟩) ∧
    (parse {} (emptyFrame.take 40)).result = .error (.incomplete 52 40) ∧
      ∃ more, (parse {} (emptyFrame.take 40 ++ more)).result ≠ .error (.incomplete 52 40) := by
  obtain ⟨hlength, hfault⟩ := parse_emptyFrame
  have hlong : 20 ≤ emptyFrame.length := by decide
  have hpart : (parse {} (emptyFrame.take 40)).result = .error (.incomplete 52 40) := by
    decide +kernel
  refine ⟨?_, hpart, ?_⟩
  · rcases (recoverable_incomplete_or_cutShort {} emptyFrame).1 _ hfault rfl with
      ⟨hshort, -⟩ | ⟨-, -, hmore⟩
    · omega
    · exact hmore
  · rcases (recoverable_incomplete_or_cutShort {} (emptyFrame.take 40)).1 _ hpart rfl with
      ⟨-, hmore⟩ | ⟨hframed, -, -⟩
    · exact hmore
    · exact absurd hframed.complete (by decide)

/-- A recoverable fault does not always tell that the input is incomplete. -/
theorem not_forall_recoverable_incomplete :
    ¬ ∀ (config : Config) (data : Bytes) (fault : Fault),
      (parse config data).result = .error fault → fault.status.isRecoverable →
        data.length < 20 ∨ data.length < data.declaredLength + 8 := by
  intro hall
  obtain ⟨hlength, hfault⟩ := parse_emptyFrame
  have hlong : 20 ≤ emptyFrame.length := by decide
  rcases hall {} emptyFrame _ hfault rfl with hshort | hshort <;> omega

end WebP
