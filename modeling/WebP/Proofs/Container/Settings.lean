import Mathlib.Data.List.Forall2
import WebP.Proofs.Container.Placement
import WebP.Proofs.Outcome.SameUpTo

/-!
# What settings change

An input is read under two settings, step by step. Settings are asked in three places: for the
duration of a frame, for the detail of a lossy image, and for what is written to the log about
large images. None of them decides whether a chunk is taken, so both runs end with the same fault,
or with descriptions that differ in the duration and the detail of their frames only. These follow
from the settings and the bytes of the frame.

## Main definitions

* `WebP.Frame.Alike`, `WebP.FileHeader.Alike`: the same, but for what settings change.
* `WebP.Frame.FollowsSettings`: a frame with the duration and the detail that settings give it.

## Main results

* `WebP.Assembly.Alike.add`: one more chunk under two settings.
* `WebP.alike_of_parse`: an input under two settings.
* `WebP.followsSettings_of_parse`: the duration and the detail of each frame.
* `WebP.parse_settings`: what settings change, and what they do not.
-/

namespace WebP

open Outcome

/-- The images are the same, but for the detail. -/
def ImageInfo.Alike (first second : ImageInfo) : Prop := ∃ lossy, second = { first with lossy }

/-- The frames are the same, but for the duration and the detail of the image. -/
def Frame.Alike (first second : Frame) : Prop :=
  ∃ duration lossy, second = { first with duration, image := { first.image with lossy } }

/-- The descriptions are the same, but for the duration and the detail of the frames. -/
def FileHeader.Alike (first second : FileHeader) : Prop :=
  ∃ frames, List.Forall₂ Frame.Alike first.frames frames ∧ second = { first with frames }

theorem Frame.Alike.hasAlpha_eq {first second : Frame} (h : first.Alike second) :
    second.hasAlpha = first.hasAlpha := by
  obtain ⟨duration, lossy, rfl⟩ := h
  rfl

/-- The chunks of a range, taken by steps that are the same up to a relation. -/
theorem Walker.Walk.sameUpTo_fold {σ τ : Type} {R : σ → τ → Prop} {step : σ → Chunk → Parsed σ}
    {step' : τ → Chunk → Parsed τ} (walk : Walker.Walk)
    (hstep : ∀ s t chunk, R s t → SameUpTo R (step s chunk).result (step' t chunk).result)
    {s : σ} {t : τ} (h : R s t) :
    SameUpTo R (walk.fold step s).result (walk.fold step' t).result := by
  refine .bind (.foldlM hstep walk.chunks h) fun _ _ hlast => ?_
  cases walk.fault with
  | none => exact .ok hlast
  | some fault => exact .error fault

/-! ### Inside a frame -/

theorem ImageInfo.alike_inspect (c₁ c₂ : Config) (format : ImageFormat) (payload : Bytes) :
    SameUpTo Alike (inspect c₁ format payload).result (inspect c₂ format payload).result := by
  cases format with
  | lossless => exact .of_eq (fun info => ⟨info.lossy, rfl⟩) rfl
  | lossy =>
    refine SameUpTo.noting ?_ _
    rw [result_inspectLossy, result_inspectLossy]
    cases (KeyFrameHeader.read.ofStart payload).result with
    | error fault => exact .error fault
    | ok header => exact .ok ⟨detail? c₂ payload header, rfl⟩

namespace FrameContent

/-- What has been found is the same, but for the detail of the image. -/
def Alike (first second : FrameContent) : Prop :=
  ∃ lossy, second =
    { first with image := first.image.map fun (image, span) => ({ image with lossy }, span) }

variable {c₁ c₂ : Config} {size : Size} {first second : FrameContent} {part : Chunk}

theorem Alike.refl (content : FrameContent) : Alike content content := by
  obtain ⟨alpha, image⟩ := content
  cases image with
  | none => exact ⟨none, rfl⟩
  | some found => exact ⟨found.1.lossy, rfl⟩

theorem Alike.image_eq_none_iff (h : Alike first second) :
    second.image = none ↔ first.image = none := by
  obtain ⟨lossy, rfl⟩ := h
  exact Option.map_eq_none_iff

theorem Alike.alpha_eq (h : Alike first second) : second.alpha = first.alpha := by
  obtain ⟨lossy, rfl⟩ := h
  rfl

theorem Alike.addAlpha (h : Alike first second) :
    SameUpTo Alike (first.addAlpha part).result (second.addAlpha part).result := by
  refine .bind_of_eq (result_ensure_congr (by rw [h.alpha_eq]) _ _) fun _ => ?_
  refine .bind_of_eq (result_ensure_congr h.image_eq_none_iff.symm _ _) fun _ => ?_
  refine .bind_self fun info => ?_
  obtain ⟨lossy, rfl⟩ := h
  exact .ok ⟨lossy, rfl⟩

theorem Alike.addImage (h : Alike first second) (format : ImageFormat) :
    SameUpTo Alike (first.addImage c₁ size format part).result
      (second.addImage c₂ size format part).result := by
  refine .bind_of_eq (result_ensure_congr h.image_eq_none_iff.symm _ _) fun _ => ?_
  refine .bind_of_eq (result_ensure_congr (by rw [h.alpha_eq]) _ _) fun _ => ?_
  refine .bind (ImageInfo.alike_inspect c₁ c₂ format part.payload) ?_
  rintro info _ ⟨lossy, rfl⟩
  refine .bind_self fun _ => ?_
  obtain ⟨_, rfl⟩ := h
  exact .ok ⟨lossy, rfl⟩

/-- A chunk inside a frame under two settings. -/
theorem Alike.add (h : Alike first second) (c₁ c₂ : Config) (size : Size) (part : Chunk) :
    SameUpTo Alike (first.add c₁ size part).result (second.add c₂ size part).result := by
  refine .bind_self fun _ => ?_
  cases part.kind with
  | alpha => exact h.addAlpha
  | lossy => exact h.addImage .lossy
  | lossless => exact h.addImage .lossless
  | unknown name => exact .ok h
  | animation | frame | exif | iccp | canvas | xmp => exact .error _

theorem Alike.frame? (h : Alike first second) (place : Placement) (d₁ d₂ : Nat) :
    Option.Rel Frame.Alike (first.frame? place d₁) (second.frame? place d₂) := by
  obtain ⟨lossy, rfl⟩ := h
  obtain ⟨alpha, image⟩ := first
  cases image with
  | none => exact .none
  | some found => exact .some ⟨d₂, lossy, rfl⟩

/-- A frame is read under two settings. -/
theorem alike_read (place : Placement) (d₁ d₂ : Nat) (chunks : Walker) :
    SameUpTo Frame.Alike (read c₁ place d₁ chunks).result (read c₂ place d₂ chunks).result := by
  refine .bind (chunks.walk.sameUpTo_fold
    (fun _ _ part h => Alike.add h c₁ c₂ place.rect.size part) (Alike.refl {})) ?_
  intro first second h
  have hframe := h.frame? place d₁ d₂
  generalize first.frame? place d₁ = left at hframe
  generalize second.frame? place d₂ = right at hframe
  cases hframe with
  | none => exact .error _
  | some h => exact .ok h

end FrameContent

/-! ### Among the chunks of a file -/

namespace Assembly

/-- What the chunks have told is the same, but for the duration and the detail of the frames. -/
def Alike (first second : Assembly) : Prop :=
  ∃ frames, List.Forall₂ Frame.Alike first.frames frames ∧ second = { first with frames }

variable {c₁ c₂ : Config} {first second : Assembly} {chunk : Chunk}

theorem Alike.addCanvas (h : Alike first second) :
    SameUpTo Alike (first.addCanvas c₁ chunk).result (second.addCanvas c₂ chunk).result := by
  obtain ⟨frames, hframes, rfl⟩ := h
  refine .bind_self fun _ => .bind_self fun _ => .bind_self fun _ => .bind_self fun header =>
    .bind_self fun _ => ?_
  refine .bind_of_eq ((result_emitIf _ _).trans (result_emitIf _ _).symm) fun _ => ?_
  exact .ok ⟨frames, hframes, rfl⟩

theorem Alike.addAnimation (h : Alike first second) :
    SameUpTo Alike (first.addAnimation chunk).result (second.addAnimation chunk).result := by
  obtain ⟨frames, hframes, rfl⟩ := h
  refine .bind_self fun _ => .bind_self fun _ => .bind_self fun _ => .bind_self fun header =>
    .bind_self fun _ => ?_
  exact .ok ⟨frames, hframes, rfl⟩

theorem Alike.addFrame (h : Alike first second) :
    SameUpTo Alike (first.addFrame c₁ chunk).result (second.addFrame c₂ chunk).result := by
  obtain ⟨frames, hframes, rfl⟩ := h
  refine .bind_self fun _ => .bind_self fun _ => .bind_self fun _ => .bind_self fun header =>
    .bind_self fun _ => .bind_self fun _ => ?_
  dsimp only
  cases first.canvas with
  | none => exact .error _
  | some canvas =>
    rw [← hframes.length_eq]
    refine .bind_self fun _ => .bind (.noting (FrameContent.alike_read _ _ _ _) _) ?_
    intro frame frame' hframe
    exact .ok ⟨frames ++ [frame'], List.rel_append hframes (.cons hframe .nil), rfl⟩

theorem Alike.stillCanvas (h : Alike first second) (c₁ c₂ : Config) (format : ImageFormat)
    (image : Size) :
    SameUpTo Alike (first.stillCanvas c₁ format image).result
      (second.stillCanvas c₂ format image).result := by
  obtain ⟨frames, hframes, rfl⟩ := h
  obtain ⟨seen, extended, animation, canvas, pendingAlpha, found, chunks⟩ := first
  cases extended with
  | none =>
    refine .bind_of_eq ((result_emitIf _ _).trans (result_emitIf _ _).symm) fun _ => ?_
    exact .ok ⟨frames, hframes, rfl⟩
  | some header => exact .bind_self fun _ => .ok ⟨frames, hframes, rfl⟩

theorem Alike.addImage (h : Alike first second) (format : ImageFormat) :
    SameUpTo Alike (first.addImage c₁ format chunk).result
      (second.addImage c₂ format chunk).result := by
  have hcanvas := h.stillCanvas c₁ c₂ format
  obtain ⟨frames, hframes, rfl⟩ := h
  refine .bind_self fun _ => .bind_self fun _ => .bind_self fun _ =>
    .bind (ImageInfo.alike_inspect c₁ c₂ format chunk.payload) ?_
  rintro info _ ⟨lossy, rfl⟩
  refine .bind (hcanvas info.size) ?_
  rintro file _ ⟨frames', hframes', rfl⟩
  refine .ok ⟨_, List.rel_append hframes' (.cons ?_ .nil), rfl⟩
  rw [← hframes'.length_eq]
  exact ⟨0, lossy, rfl⟩

theorem Alike.addAlpha (h : Alike first second) :
    SameUpTo Alike (first.addAlpha chunk).result (second.addAlpha chunk).result := by
  obtain ⟨frames, hframes, rfl⟩ := h
  refine .bind_self fun _ => .bind_self fun _ => .bind_self fun _ => .bind_self fun _ =>
    .bind_self fun info => ?_
  exact .ok ⟨frames, hframes, rfl⟩

theorem Alike.addProfile (h : Alike first second) :
    SameUpTo Alike first.addProfile.result second.addProfile.result := by
  obtain ⟨frames, hframes, rfl⟩ := h
  exact .bind_self fun _ => .bind_self fun _ => .bind_self fun _ => .ok ⟨frames, hframes, rfl⟩

/-- A chunk of the file under two settings. -/
theorem Alike.add (h : Alike first second) (c₁ c₂ : Config) (chunk : Chunk) :
    SameUpTo Alike (first.add c₁ chunk).result (second.add c₂ chunk).result := by
  refine .bind_self fun _ => ?_
  refine SameUpTo.bind (R := Alike) ?_ ?_
  · rw [interpret, interpret]
    cases chunk.kind with
    | canvas => exact h.addCanvas
    | animation => exact h.addAnimation
    | frame => exact h.addFrame
    | lossy => exact h.addImage .lossy
    | lossless => exact h.addImage .lossless
    | alpha => exact h.addAlpha
    | iccp => exact h.addProfile
    | exif | xmp =>
      obtain ⟨frames, hframes, rfl⟩ := h
      exact .ok ⟨frames, hframes, rfl⟩
    | unknown _ => exact .ok h
  · rintro told _ ⟨frames, hframes, rfl⟩
    exact .ok ⟨frames, hframes, rfl⟩

theorem Alike.hasAlpha_eq (h : Alike first second) : second.hasAlpha = first.hasAlpha := by
  obtain ⟨frames, hframes, rfl⟩ := h
  change frames.any Frame.hasAlpha = first.frames.any Frame.hasAlpha
  generalize first.frames = front at hframes
  induction hframes with
  | nil => rfl
  | cons h _ ih => rw [List.any_cons, List.any_cons, h.hasAlpha_eq, ih]

/-- What must hold at the end does not depend on the durations and the details. -/
theorem Alike.check (h : Alike first second) :
    SameUpTo Eq first.check.result second.check.result := by
  obtain ⟨frames, hframes, rfl⟩ := h
  have hnil : first.frames ≠ [] ↔ frames ≠ [] := by
    rw [← List.length_pos_iff, hframes.length_eq, List.length_pos_iff]
  have hlogged {event event' : Event} {p q : Prop} [Decidable p] [Decidable q] :
      (emitIf p event : Parsed Unit).result = (emitIf q event' : Parsed Unit).result :=
    (result_emitIf _ _).trans (result_emitIf _ _).symm
  refine .bind_self fun _ => .bind_of_eq (result_ensure_congr hnil _ _) fun _ => ?_
  obtain ⟨seen, extended, animation, canvas, pendingAlpha, found, chunks⟩ := first
  cases extended with
  | none => exact .ok rfl
  | some header =>
    refine .bind_of_eq hlogged fun _ => .bind_of_eq hlogged fun _ => .bind_self fun _ =>
      .bind_self fun _ => .bind_self fun _ => .of_eq (fun _ => rfl) ?_
    exact result_ensure_congr (by rw [hframes.length_eq]) _ _

theorem Alike.toHeader (h : Alike first second) (fileLength : Nat) :
    (first.toHeader fileLength).Alike (second.toHeader fileLength) := by
  have halpha := h.hasAlpha_eq
  obtain ⟨frames, hframes, rfl⟩ := h
  refine ⟨frames, hframes, ?_⟩
  rw [Assembly.toHeader, halpha]
  rfl

end Assembly

/-- An input is read under two settings. -/
theorem FileHeader.alike_read (c₁ c₂ : Config) (data : Bytes) :
    SameUpTo Alike (read c₁ data).result (read c₂ data).result := by
  refine .bind_self fun span => .bind ((Walker.over data span).walk.sameUpTo_fold
    (fun _ _ chunk h => Assembly.Alike.add h c₁ c₂ chunk) ⟨[], .nil, rfl⟩) ?_
  intro first second h
  exact .bind h.check fun _ _ _ => .ok (h.toHeader span.stop)

/-- **An input under two settings.** It is refused under both with the same fault, or it is
accepted under both, and the descriptions are alike. -/
theorem alike_of_parse (c₁ c₂ : Config) (data : Bytes) :
    SameUpTo FileHeader.Alike (parse c₁ data).result (parse c₂ data).result := by
  rw [result_parse, result_parse]
  exact FileHeader.alike_read c₁ c₂ data

/-! ### What settings give a frame -/

/-- The frame has the duration and the detail that the settings give it. A still image has no
duration. A frame of an animation is shown as long as its header says, unless that is too short.
The detail is there if it is asked for and can be read from a lossy image. -/
structure Frame.FollowsSettings (config : Config) (data : Bytes) (entry : ChunkEntry)
    (frame : Frame) : Prop where
  still : entry.kind.isImage → frame.duration = 0
  animated : entry.kind = .frame → ∃ header,
    (FrameHeader.read.ofStart (data.slice entry.payloadSpan)).result = .ok header ∧
    frame.duration = if config.minFrameDelay ≤ header.duration then header.duration
      else config.defaultFrameDelay
  lossless : frame.image.format = .lossless → frame.image.lossy = none
  omitted : config.inspectLossyDetail = false → frame.image.lossy = none
  lossy : frame.image.format = .lossy → config.inspectLossyDetail = true → ∃ header,
    (KeyFrameHeader.read.ofStart (data.slice frame.payload)).result = .ok header ∧
    frame.image.lossy = (LossyDetail.read (data.slice frame.payload) header).toOption

section FollowsSettings

variable {config : Config} {data bytes : Bytes} {offset : Nat} {chunks : List Chunk}
  {chunk : Chunk} {frame : Frame} {header : FileHeader}

/-- What is read again from the bytes of a frame has the detail that the settings ask for. -/
theorem Frame.Reads.lossy_eq (h : frame.Reads config data) :
    (frame.image.format = .lossless → frame.image.lossy = none) ∧
      (frame.image.format = .lossy → ∃ header,
        (KeyFrameHeader.read.ofStart (data.slice frame.payload)).result = .ok header ∧
        frame.image.lossy = ImageInfo.detail? config (data.slice frame.payload) header) := by
  have hinspected := h.inspected
  refine ⟨fun hformat => ?_, fun hformat => ?_⟩
  · rw [hformat] at hinspected
    obtain ⟨header, -, himage⟩ := ImageInfo.inspect_lossless_eq_ok_iff.mp hinspected
    rw [himage]
  · rw [hformat] at hinspected
    obtain ⟨header, hheader, himage⟩ := ImageInfo.inspect_lossy_eq_ok_iff.mp hinspected
    exact ⟨header, hheader, by rw [himage]⟩

theorem Frame.IsBroughtBy.followsSettings (h : frame.IsBroughtBy config chunks chunk)
    (htiles : Tiles offset bytes chunks) (hdata : data.HasAt offset bytes)
    (hc : chunk ∈ chunks) : frame.FollowsSettings config data chunk.entry := by
  obtain ⟨hlossless, hlossy⟩ := (h.reads htiles hdata hc).lossy_eq
  have hslice : data.slice chunk.entry.payloadSpan = chunk.payload :=
    htiles.slice_payloadSpan hdata.found hdata.offset_le hc
  refine ⟨fun himage => ?_, fun hframe => ?_, hlossless, fun hoff => ?_, fun hformat hon => ?_⟩
  · cases h with
    | still _ _ duration_eq => exact duration_eq
    | animated isFrame =>
      change chunk.kind.isImage at himage
      rw [isFrame] at himage
      cases himage
  · cases h with
    | still isImage =>
      change chunk.kind = .frame at hframe
      rw [hframe] at isImage
      cases isImage
    | animated _ long _ duration_eq =>
      refine ⟨_, by rw [hslice]; exact FrameHeader.result_read long, ?_⟩
      rw [duration_eq, Assembly.frameDuration, ← ite_not]
      simp only [Nat.not_lt]
  · cases hformat : frame.image.format with
    | lossless => exact hlossless hformat
    | lossy =>
      obtain ⟨header, -, hdetail⟩ := hlossy hformat
      rw [hdetail, ImageInfo.detail?, hoff]
      rfl
  · obtain ⟨header, hheader, hdetail⟩ := hlossy hformat
    refine ⟨header, hheader, ?_⟩
    rw [hdetail, ImageInfo.detail?, hon]
    rfl

/-- **The duration and the detail of each frame** of an accepted file follow the settings. -/
theorem followsSettings_of_parse (accepted : (parse config data).result = .ok header) :
    List.Forall₂ (Frame.FollowsSettings config data)
      (header.chunks.filter (·.kind.bringsFrame)) header.frames := by
  obtain ⟨hframed, chunks, file, htiles, -, hd, ht, rfl⟩ := traces_of_parse accepted
  change List.Forall₂ _ (file.chunks.filter (·.kind.bringsFrame)) file.frames
  rw [hd.chunks_eq, List.filter_map, List.forall₂_map_left_iff]
  have hmem : ∀ chunk ∈ chunks.filter (·.kind.bringsFrame), chunk ∈ chunks :=
    fun _ => List.mem_of_mem_filter
  exact ((List.forall₂_and_left _ _).mpr ⟨hmem, ht.frames⟩).imp fun chunk frame hboth =>
    hboth.2.followsSettings htiles hframed.hasAt_chunks hboth.1

/-- Settings that differ in what is written to the log give a frame the same. -/
theorem Frame.FollowsSettings.of_area {entry : ChunkEntry} {area : Nat}
    (h : frame.FollowsSettings { config with maxImageArea := area } data entry) :
    frame.FollowsSettings config data entry :=
  ⟨h.still, h.animated, h.lossless, h.omitted, h.lossy⟩

/-- Frames that are alike and follow the same settings are equal. -/
theorem Frame.FollowsSettings.eq_of_alike {entry : ChunkEntry} {other : Frame}
    (hbrings : entry.kind.bringsFrame) (h : frame.FollowsSettings config data entry)
    (h' : other.FollowsSettings config data entry) (halike : frame.Alike other) :
    other = frame := by
  have hduration : other.duration = frame.duration := by
    rcases (Bool.or_eq_true _ _).mp hbrings with himage | hframe
    · rw [h.still himage, h'.still himage]
    · obtain ⟨stored, hstored, heq⟩ := h.animated (eq_of_beq hframe)
      obtain ⟨stored', hstored', heq'⟩ := h'.animated (eq_of_beq hframe)
      obtain rfl := Except.ok.inj (hstored.symm.trans hstored')
      rw [heq, heq']
  have hlossy : other.image.lossy = frame.image.lossy := by
    have hformat : other.image.format = frame.image.format := by
      obtain ⟨_, _, rfl⟩ := halike
      rfl
    have hpayload : other.payload = frame.payload := by
      obtain ⟨_, _, rfl⟩ := halike
      rfl
    cases hcase : frame.image.format with
    | lossless => rw [h.lossless hcase, h'.lossless (hformat.trans hcase)]
    | lossy =>
      cases hon : config.inspectLossyDetail with
      | false => rw [h.omitted hon, h'.omitted hon]
      | true =>
        obtain ⟨key, hkey, heq⟩ := h.lossy hcase hon
        obtain ⟨key', hkey', heq'⟩ := h'.lossy (hformat.trans hcase) hon
        rw [hpayload] at hkey' heq'
        obtain rfl := Except.ok.inj (hkey.symm.trans hkey')
        rw [heq, heq']
  obtain ⟨duration, lossy, rfl⟩ := halike
  obtain rfl : duration = frame.duration := hduration
  obtain rfl : lossy = frame.image.lossy := hlossy
  rfl

theorem frames_eq_of_followsSettings {entries : List ChunkEntry} {frames others : List Frame}
    (hbrings : ∀ entry ∈ entries, entry.kind.bringsFrame)
    (h : List.Forall₂ (Frame.FollowsSettings config data) entries frames)
    (h' : List.Forall₂ (Frame.FollowsSettings config data) entries others)
    (halike : List.Forall₂ Frame.Alike frames others) : others = frames := by
  induction h generalizing others with
  | nil =>
    cases h'
    rfl
  | cons hhead _ ih =>
    cases h' with
    | cons hhead' htail' =>
      cases halike with
      | cons halike hrest =>
        obtain ⟨hfirst, hothers⟩ := List.forall_mem_cons.mp hbrings
        rw [hhead.eq_of_alike hfirst hhead' halike, ih hothers htail' hrest]

/-- Descriptions that are alike and follow the same settings are equal. -/
theorem FileHeader.Alike.eq_of_followsSettings {other : FileHeader} (halike : header.Alike other)
    (h : List.Forall₂ (Frame.FollowsSettings config data)
      (header.chunks.filter (·.kind.bringsFrame)) header.frames)
    (h' : List.Forall₂ (Frame.FollowsSettings config data)
      (other.chunks.filter (·.kind.bringsFrame)) other.frames) : other = header := by
  obtain ⟨frames, hframes, rfl⟩ := halike
  have hbrings : ∀ entry ∈ header.chunks.filter (·.kind.bringsFrame), entry.kind.bringsFrame :=
    fun _ hentry => (List.mem_filter.mp hentry).2
  obtain rfl : frames = header.frames := frames_eq_of_followsSettings hbrings h h' hframes
  rfl

/-- The largest area that is not mentioned in the log changes nothing else. -/
theorem result_parse_area (config : Config) (data : Bytes) (area : Nat) :
    (parse { config with maxImageArea := area } data).result = (parse config data).result := by
  have halike := alike_of_parse config { config with maxImageArea := area } data
  have hfirst := @followsSettings_of_parse config data
  have hsecond := @followsSettings_of_parse { config with maxImageArea := area } data
  generalize (parse config data).result = first at *
  generalize (parse { config with maxImageArea := area } data).result = second at *
  cases halike with
  | error fault => rfl
  | ok h =>
    rw [h.eq_of_followsSettings (hfirst rfl)
      ((hsecond rfl).imp fun _ _ hfollows => hfollows.of_area)]

end FollowsSettings

/-- **What settings change.** Under any two settings an input is refused with the same fault, or it
is accepted with descriptions that differ in the durations and the details of the frames only. Both
follow the settings and the bytes of the frame, and the largest area that is not mentioned in the
log changes nothing else. -/
theorem parse_settings (c₁ c₂ : Config) (data : Bytes) :
    SameUpTo FileHeader.Alike (parse c₁ data).result (parse c₂ data).result ∧
    (∀ config header, (parse config data).result = .ok header →
      List.Forall₂ (Frame.FollowsSettings config data)
        (header.chunks.filter (·.kind.bringsFrame)) header.frames) ∧
    ∀ config area,
      (parse { config with maxImageArea := area } data).result = (parse config data).result :=
  ⟨alike_of_parse c₁ c₂ data, fun _ _ => followsSettings_of_parse,
    fun config area => result_parse_area config data area⟩

/-- Both frames of the animation are shown for 40 milliseconds, which is too short under the second
settings; they also leave out the detail. Nothing else is different. -/
theorem parse_settings_alphaAnimation :
    let strict : Config := { minFrameDelay := 50, inspectLossyDetail := false }
    ∃ first second, (parse {} alphaAnimation).result = .ok first ∧
      (parse strict alphaAnimation).result = .ok second ∧ first.Alike second ∧
      first.frames.map (·.duration) = [40, 40] ∧ second.frames.map (·.duration) = [100, 100] ∧
      List.Forall₂ (Frame.FollowsSettings strict alphaAnimation)
        (second.chunks.filter (·.kind.bringsFrame)) second.frames := by
  intro strict
  have hdurations (config : Config) (durations : List Nat)
      (hread : ((parse config alphaAnimation).result.toOption.map fun header =>
        header.frames.map (·.duration)) = some durations) :
      ∃ header, (parse config alphaAnimation).result = .ok header ∧
        header.frames.map (·.duration) = durations := by
    obtain ⟨header, hheader, hvalue⟩ := Option.map_eq_some_iff.mp hread
    exact ⟨header, toOption_result_eq_some_iff.mp hheader, hvalue⟩
  obtain ⟨first, hfirst, hlong⟩ := hdurations {} [40, 40] (by decide +kernel)
  obtain ⟨second, hsecond, hshort⟩ := hdurations strict [100, 100] (by decide +kernel)
  obtain ⟨halike, hfollows, -⟩ := parse_settings {} strict alphaAnimation
  rw [hfirst, hsecond] at halike
  cases halike with
  | ok halike =>
    exact ⟨first, second, hfirst, hsecond, halike, hlong, hshort, hfollows strict second hsecond⟩

end WebP
