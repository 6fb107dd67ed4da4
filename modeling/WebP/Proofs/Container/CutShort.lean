import WebP.Proofs.Chunk.StopsShort
import WebP.Proofs.Container.Acceptance
import WebP.Proofs.Image.EndsInside

/-!
# Files that are cut short inside

A file of which no byte is missing may still be refused for want of bytes. Its chunks are in the
grammar of a file up to one that the declared end cuts off, or that holds less than its kind asks
for. For a frame of an animation the same is said again of the chunks inside it. Which files these
are is said of the bytes alone, and does not depend on settings.

## Main definitions

* `WebP.Chunk.EndsInsideHeaders`: an image or an alpha plane that ends before its headers do.
* `WebP.FrameStopsShort`: the bytes behind the header of a frame.
* `WebP.Chunk.IsCutShort`: a chunk of a file.
* `WebP.Bytes.IsCutShort`: the chunks of a file.

## Main results

* `WebP.FrameContent.runsOut_read_iff`, `WebP.Assembly.Describes.runsOut_add_iff`: a frame and a
  chunk of a file.
* `WebP.runsOut_parse_iff`: which inputs are refused for want of bytes.
-/

namespace WebP

open Outcome

/-- The chunk is an image or an alpha plane, the payload of which ends inside its headers. -/
def Chunk.EndsInsideHeaders (chunk : Chunk) : Prop :=
  match chunk.kind with
  | .alpha => AlphaInfo.EndsInside chunk.payload
  | .lossy => ImageFormat.lossy.EndsInside chunk.payload
  | .lossless => ImageFormat.lossless.EndsInside chunk.payload
  | .animation | .frame | .exif | .iccp | .canvas | .xmp | .unknown _ => False

/-! ### Inside a frame -/

/-- In the bytes behind the header of a frame, of the given size, bytes are missing. -/
abbrev FrameStopsShort (size : Size) : Nat → Bytes → Prop :=
  StopsShort (FrameGrammar size) fun parts part =>
    FollowsInFrame (parts.map Chunk.kind) part.kind ∧ part.EndsInsideHeaders

namespace FrameContent

variable {config : Config} {size : Size} {content : FrameContent} {format : ImageFormat}
  {parts : List Chunk} {part : Chunk}

theorem runsOut_addAlpha_iff : RunsOut (content.addAlpha part).result ↔
    content.alpha = none ∧ content.image = none ∧ AlphaInfo.EndsInside part.payload := by
  refine (runsOut_ensure_bind_iff (by decide)).trans (and_congr_right fun _ => ?_)
  refine (runsOut_ensure_bind_iff (by decide)).trans (and_congr_right fun _ => ?_)
  exact (runsOut_bind_iff_of_not fun _ => failsWith_ok_iff.mp).trans AlphaInfo.runsOut_inspect_iff

theorem not_runsOut_ensureSize {info : ImageInfo} : ¬ RunsOut (info.ensureSize size) := by
  unfold ImageInfo.ensureSize
  split
  · exact failsWith_ok_iff.mp
  · exact fun h => Bool.false_ne_true (failsWith_error_iff.mp h)

theorem runsOut_addImage_iff : RunsOut (content.addImage config size format part).result ↔
    content.image = none ∧ (format = .lossless → content.alpha = none) ∧
      format.EndsInside part.payload := by
  refine (runsOut_ensure_bind_iff (by decide)).trans (and_congr_right fun _ => ?_)
  refine (runsOut_ensure_bind_iff (by decide)).trans (and_congr_right fun _ => ?_)
  refine (runsOut_bind_iff_of_not fun info => ?_).trans ImageFormat.runsOut_inspect_iff
  refine (runsOut_bind_iff_of_not fun _ => failsWith_ok_iff.mp).not.mpr ?_
  exact runsOut_noting_iff.not.mpr not_runsOut_ensureSize

/-- A chunk lacks bytes exactly if it may follow and ends inside its headers. -/
theorem Describes.runsOut_add_iff (hd : Describes config parts content) :
    RunsOut (content.add config size part).result ↔
      FollowsInFrame (parts.map Chunk.kind) part.kind ∧ part.EndsInsideHeaders := by
  rw [Chunk.EndsInsideHeaders]
  cases hkind : part.kind with
  | alpha =>
    rw [add_of_alpha hkind, runsOut_addAlpha_iff, hd.alpha_eq_none, hd.image_eq_none, ← and_assoc]
    rfl
  | lossy =>
    have hformat : part.kind = ImageFormat.lossy.kind := hkind
    rw [add_of_image hformat, runsOut_addImage_iff, hd.image_eq_none]
    simp only [reduceCtorEq, false_implies, true_and, FollowsInFrame]
  | lossless =>
    have hformat : part.kind = ImageFormat.lossless.kind := hkind
    rw [add_of_image hformat, runsOut_addImage_iff, hd.image_eq_none, hd.alpha_eq_none]
    simp only [true_implies, and_assoc, FollowsInFrame]
  | unknown name =>
    rw [FrameContent.add, hkind]
    exact iff_of_false failsWith_ok_iff.mp fun h => h.2
  | animation | frame | exif | iccp | canvas | xmp =>
    rw [FrameContent.add, hkind]
    exact iff_of_false (fun h => Bool.false_ne_true (failsWith_error_iff.mp h)) fun h => h.2

/-- **Which frames are cut short.** A frame lacks bytes exactly if the chunks behind its header
stop short. -/
theorem runsOut_read_iff {place : Placement} {duration : Nat} {chunk : Chunk}
    (hlt : chunk.payload.length < 2 ^ 32)
    (hlong : FrameHeader.encodedLength ≤ chunk.payload.length) :
    RunsOut (read config place duration (chunk.children FrameHeader.encodedLength)).result ↔
      FrameStopsShort place.rect.size (chunk.offset + 24) (chunk.payload.drop 16) := by
  have hrest : (chunk.payload.drop FrameHeader.encodedLength).length < 2 ^ 32 := by
    rw [List.length_drop]
    omega
  rw [read, Chunk.children_frameHeader hlong]
  refine (runsOut_bind_iff_of_not fun content => ?_).trans
    (Walker.runsOut_fold_iff (fun parts _ => (foldlM_add config place.rect.size parts).1)
      (fun parts part content _ _ hfold => ?_) hrest)
  · cases content.frame? place duration with
    | none => exact fun h => Bool.false_ne_true (failsWith_error_iff.mp h)
    | some frame => exact failsWith_ok_iff.mp
  · exact ((foldlM_add config place.rect.size parts).2 content hfold).runsOut_add_iff

end FrameContent

/-! ### Among the chunks of a file -/

/-- The payload of a frame lacks bytes: it ends inside its header, or the header is that of a frame
on the canvas and what is behind it stops short. -/
inductive Chunk.IsCutShortFrame (canvas : Size) (chunk : Chunk) : Prop
  | header (length_even : chunk.payload.length % 2 = 0) (length_lt : chunk.payload.length < 16)
  | content (length_even : chunk.payload.length % 2 = 0) (length_ge : 16 ≤ chunk.payload.length)
      (x_le : (FrameHeader.decode chunk.payload).rect.x ≤ 2 ^ 24)
      (y_le : (FrameHeader.decode chunk.payload).rect.y ≤ 2 ^ 24)
      (within_canvas : (FrameHeader.decode chunk.payload).rect.FitsWithin canvas)
      (stops : FrameStopsShort (FrameHeader.decode chunk.payload).rect.size (chunk.offset + 24)
        (chunk.payload.drop 16))

/-- The payload of the chunk lacks bytes in a file with the extended header, if there is one. -/
def Chunk.IsCutShort (extended : Option CanvasHeader) (chunk : Chunk) : Prop :=
  chunk.EndsInsideHeaders ∨
    chunk.kind = .frame ∧ ∃ header, extended = some header ∧ chunk.IsCutShortFrame header.canvas

/-- Among the chunks of the file, up to its declared end, bytes are missing. -/
def Bytes.IsCutShort (data : Bytes) : Prop :=
  StopsShort ChunkGrammar (fun chunks chunk =>
    Follows (chunks.map Chunk.kind) chunk.kind ∧ chunk.IsCutShort (extended? chunks)) 12
    (data.slice ⟨12, data.declaredLength + 8⟩)

namespace Assembly

variable {config : Config} {file : Assembly} {format : ImageFormat} {chunks : List Chunk}
  {chunk : Chunk}

theorem not_runsOut_addCanvas : ¬ RunsOut (file.addCanvas config chunk).result := by
  intro h
  obtain ⟨-, h⟩ := (runsOut_ensure_bind_iff (by decide)).mp h
  obtain ⟨-, h⟩ := (runsOut_ensure_bind_iff (by decide)).mp h
  obtain ⟨hlength, h⟩ := (runsOut_ensure_bind_iff (by decide)).mp h
  have hread : (chunk.read CanvasHeader.read).result = .ok (.decode chunk.payload) :=
    result_noting_eq_ok.mpr (CanvasHeader.result_read (Nat.le_of_eq hlength.symm))
  replace h := (runsOut_bind_iff_of_ok hread).mp h
  replace h := (runsOut_bind_iff_of_ok rfl).mp h
  exact failsWith_ok_iff.mp ((runsOut_bind_iff_of_ok (result_emitIf _ _)).mp h)

theorem not_runsOut_addAnimation : ¬ RunsOut (file.addAnimation chunk).result := by
  intro h
  obtain ⟨-, h⟩ := (runsOut_ensure_bind_iff (by decide)).mp h
  obtain ⟨-, h⟩ := (runsOut_ensure_bind_iff (by decide)).mp h
  obtain ⟨hlength, h⟩ := (runsOut_ensure_bind_iff (by decide)).mp h
  have hread : (chunk.read AnimationHeader.read).result = .ok (.decode chunk.payload) :=
    result_noting_eq_ok.mpr (AnimationHeader.result_read (Nat.le_of_eq hlength.symm))
  replace h := (runsOut_bind_iff_of_ok hread).mp h
  exact failsWith_ok_iff.mp ((runsOut_bind_iff_of_ok rfl).mp h)

theorem not_runsOut_addProfile : ¬ RunsOut file.addProfile.result := by
  intro h
  obtain ⟨-, h⟩ := (runsOut_ensure_bind_iff (by decide)).mp h
  obtain ⟨-, h⟩ := (runsOut_ensure_bind_iff (by decide)).mp h
  obtain ⟨-, h⟩ := (runsOut_ensure_bind_iff (by decide)).mp h
  exact failsWith_ok_iff.mp h

theorem runsOut_addAlpha_iff : RunsOut (file.addAlpha chunk).result ↔
    ¬ file.HasAnimation ∧ file.Has .canvas ∧ ¬ file.HasImage ∧ ¬ file.Has .alpha ∧
      AlphaInfo.EndsInside chunk.payload := by
  refine (runsOut_ensure_bind_iff (by decide)).trans (and_congr_right fun _ => ?_)
  refine (runsOut_ensure_bind_iff (by decide)).trans (and_congr_right fun _ => ?_)
  refine (runsOut_ensure_bind_iff (by decide)).trans (and_congr_right fun _ => ?_)
  refine (runsOut_ensure_bind_iff (by decide)).trans (and_congr_right fun _ => ?_)
  exact (runsOut_bind_iff_of_not fun _ => failsWith_ok_iff.mp).trans AlphaInfo.runsOut_inspect_iff

theorem not_runsOut_stillCanvas {image : Size} :
    ¬ RunsOut (file.stillCanvas config format image).result := by
  unfold stillCanvas
  cases file.extended with
  | none =>
    exact (runsOut_bind_iff_of_ok (result_emitIf _ _)).not.mpr failsWith_ok_iff.mp
  | some header =>
    exact fun h => failsWith_ok_iff.mp ((runsOut_ensure_bind_iff (by decide)).mp h).2

theorem runsOut_addImage_iff : RunsOut (file.addImage config format chunk).result ↔
    ¬ file.HasImage ∧ ¬ file.HasAnimation ∧ (format = .lossless → ¬ file.Has .alpha) ∧
      format.EndsInside chunk.payload := by
  refine (runsOut_ensure_bind_iff (by decide)).trans (and_congr_right fun _ => ?_)
  refine (runsOut_ensure_bind_iff (by decide)).trans (and_congr_right fun _ => ?_)
  refine (runsOut_ensure_bind_iff (by decide)).trans (and_congr_right fun _ => ?_)
  refine (runsOut_bind_iff_of_not fun info => ?_).trans ImageFormat.runsOut_inspect_iff
  exact (runsOut_bind_iff_of_not fun _ => failsWith_ok_iff.mp).not.mpr not_runsOut_stillCanvas

/-- A frame of an animation lacks bytes if it is too short for its header, or if it lies on the
canvas and the reading of its content runs out. -/
theorem runsOut_addFrame_iff : RunsOut (file.addFrame config chunk).result ↔
    file.Has .animation ∧ chunk.payload.length % 2 = 0 ∧
      (chunk.payload.length < 16 ∨ 16 ≤ chunk.payload.length ∧
        ((FrameHeader.decode chunk.payload).rect.x ≤ 2 ^ 24 ∧
          (FrameHeader.decode chunk.payload).rect.y ≤ 2 ^ 24) ∧
        ∃ canvas, file.canvas = some canvas ∧
          (FrameHeader.decode chunk.payload).rect.FitsWithin canvas ∧
          RunsOut (FrameContent.read config
            (placement file.frames.length (FrameHeader.decode chunk.payload))
            (frameDuration config (FrameHeader.decode chunk.payload).duration)
            (chunk.children FrameHeader.encodedLength)).result) := by
  refine (runsOut_ensure_bind_iff (by decide)).trans (and_congr_right fun _ => ?_)
  refine (runsOut_ensure_bind_iff (by decide)).trans (and_congr_right fun _ => ?_)
  rw [result_bind, result_ensure]
  by_cases hlong : FrameHeader.encodedLength ≤ chunk.payload.length
  · have hge : 16 ≤ chunk.payload.length := hlong
    have hread : (chunk.read FrameHeader.read).result = .ok (.decode chunk.payload) :=
      result_noting_eq_ok.mpr (FrameHeader.result_read hlong)
    rw [if_pos hlong, or_iff_right (Nat.not_lt.mpr hge), and_iff_right hge]
    refine (runsOut_bind_iff_of_ok hread).trans ((runsOut_bind_iff_of_ok rfl).trans ?_)
    refine (runsOut_ensure_bind_iff (by decide)).trans (and_congr_right fun _ => ?_)
    cases file.canvas with
    | none =>
      refine iff_of_false (fun h => Bool.false_ne_true (failsWith_error_iff.mp h)) ?_
      rintro ⟨_, ⟨⟩, -⟩
    | some canvas =>
      simp only [Option.some.injEq, exists_eq_left']
      refine (runsOut_ensure_bind_iff (by decide)).trans (and_congr_right fun _ => ?_)
      exact (runsOut_bind_iff_of_not fun _ => failsWith_ok_iff.mp).trans runsOut_noting_iff
  · have hlt : chunk.payload.length < 16 := Nat.not_le.mp hlong
    rw [if_neg hlong]
    exact iff_of_true (failsWith_error_iff.mpr rfl) (.inl hlt)

namespace Describes

theorem runsOut_addFrame_iff (hd : Describes chunks file) (hg : ChunkGrammar chunks)
    (hlt : chunk.payload.length < 2 ^ 32) :
    RunsOut (file.addFrame config chunk).result ↔ .animation ∈ chunks.map Chunk.kind ∧
      ∃ header, extended? chunks = some header ∧ chunk.IsCutShortFrame header.canvas := by
  rw [Assembly.runsOut_addFrame_iff, hd.has_iff .animation rfl]
  refine and_congr_right fun hanimation => ?_
  obtain ⟨header, hextended⟩ : ∃ header, extended? chunks = some header := by
    rw [← Option.ne_none_iff_exists', ne_eq, extended?_eq_none_iff, not_not]
    exact hg.layout.animation_extended.mem hanimation
  have hcanvas := hd.canvas_eq header (hd.extended_eq.trans hextended)
  simp only [hextended, hcanvas, Option.some.injEq, exists_eq_left']
  constructor
  · rintro ⟨heven, hshort | ⟨hge, ⟨hx, hy⟩, hfits, hout⟩⟩
    · exact .header heven hshort
    · exact .content heven hge hx hy hfits ((FrameContent.runsOut_read_iff hlt hge).mp hout)
  · rintro (⟨heven, hshort⟩ | ⟨heven, hge, hx, hy, hfits, hstops⟩)
    · exact ⟨heven, .inl hshort⟩
    · exact ⟨heven, .inr ⟨hge, ⟨hx, hy⟩, hfits,
        (FrameContent.runsOut_read_iff hlt hge).mpr hstops⟩⟩

/-- **Which chunks are cut short.** A chunk lacks bytes exactly if it may follow and its payload is
cut short. -/
theorem runsOut_add_iff (hd : Describes chunks file) (hg : ChunkGrammar chunks)
    (hlt : chunk.payload.length < 2 ^ 32) :
    RunsOut (file.add config chunk).result ↔
      Follows (chunks.map Chunk.kind) chunk.kind ∧ chunk.IsCutShort (extended? chunks) := by
  refine (runsOut_bind_iff_of_ok rfl).trans
    ((runsOut_bind_iff_of_not fun _ => failsWith_ok_iff.mp).trans ?_)
  rw [interpret, Chunk.IsCutShort, Chunk.EndsInsideHeaders]
  cases hkind : chunk.kind with
  | canvas =>
    refine iff_of_false not_runsOut_addCanvas ?_
    rintro ⟨-, hends | ⟨⟨⟩, -⟩⟩
    exact hends
  | animation =>
    refine iff_of_false not_runsOut_addAnimation ?_
    rintro ⟨-, hends | ⟨⟨⟩, -⟩⟩
    exact hends
  | iccp =>
    refine iff_of_false not_runsOut_addProfile ?_
    rintro ⟨-, hends | ⟨⟨⟩, -⟩⟩
    exact hends
  | exif | xmp | unknown name =>
    refine iff_of_false failsWith_ok_iff.mp ?_
    rintro ⟨-, hends | ⟨⟨⟩, -⟩⟩
    exact hends
  | frame =>
    refine (hd.runsOut_addFrame_iff hg hlt).trans ?_
    simp only [Follows, false_or, true_and]
  | lossy =>
    refine Assembly.runsOut_addImage_iff.trans ?_
    simp only [hd.not_hasImage_iff, hd.not_hasAnimation_iff hg, reduceCtorEq, false_implies,
      false_and, or_false, true_and, Follows, and_assoc]
  | lossless =>
    refine Assembly.runsOut_addImage_iff.trans ?_
    simp only [hd.not_hasImage_iff, hd.not_hasAnimation_iff hg, hd.has_iff .alpha rfl, true_implies,
      reduceCtorEq, false_and, or_false, Follows, and_assoc]
  | alpha =>
    refine Assembly.runsOut_addAlpha_iff.trans ?_
    simp only [hd.not_hasImage_iff, hd.not_hasAnimation_iff hg, hd.has_iff .canvas rfl,
      hd.has_iff .alpha rfl, reduceCtorEq, false_and, or_false, Follows, and_assoc]
    exact and_left_comm

end Describes

/-- What is compared at the end is not a matter of missing bytes. -/
theorem not_runsOut_check : ¬ RunsOut file.check.result := by
  unfold check
  cases file.extended with
  | none =>
    intro h
    replace h := (runsOut_bind_iff_of_ok rfl).mp h
    exact failsWith_ok_iff.mp ((runsOut_ensure_bind_iff (by decide)).mp h).2
  | some header =>
    intro h
    obtain ⟨-, h⟩ := (runsOut_ensure_bind_iff (by decide)).mp h
    obtain ⟨-, h⟩ := (runsOut_ensure_bind_iff (by decide)).mp h
    replace h := (runsOut_bind_iff_of_ok (result_emitIf _ _)).mp h
    replace h := (runsOut_bind_iff_of_ok (result_emitIf _ _)).mp h
    obtain ⟨-, h⟩ := (runsOut_ensure_bind_iff (by decide)).mp h
    obtain ⟨-, h⟩ := (runsOut_ensure_bind_iff (by decide)).mp h
    obtain ⟨-, h⟩ := (runsOut_ensure_bind_iff (by decide)).mp h
    exact not_runsOut_ensure (by decide) h

end Assembly

/-- **Which inputs are refused for want of bytes.** -/
theorem runsOut_parse_iff {config : Config} {data : Bytes} :
    RunsOut (parse config data).result ↔
      RunsOut (chunkSpan data).result ∨ IsFramed data ∧ data.IsCutShort := by
  rw [result_parse, FileHeader.read, result_bind]
  refine failsWith_bind_iff.trans (or_congr Iff.rfl ?_)
  simp only [chunkSpan_eq_ok_iff, and_assoc, exists_and_left, exists_eq_left]
  refine and_congr_right fun hframed => ?_
  rw [Walker.over_of_isFramed hframed]
  refine (runsOut_bind_iff_of_not fun file => ?_).trans
    (Walker.runsOut_fold_iff (fun chunks hsized => (Assembly.foldlM_add config chunks hsized).1)
      (fun chunks chunk file hsized hsize hfold => ?_) hframed.length_chunks_lt)
  · exact (runsOut_bind_iff_of_not fun _ => failsWith_ok_iff.mp).not.mpr
      Assembly.not_runsOut_check
  · obtain ⟨htaken, hdescribes⟩ := Assembly.foldlM_add config chunks hsized
    exact (hdescribes file hfold).runsOut_add_iff (htaken.mp ⟨file, hfold⟩) hsize

end WebP
