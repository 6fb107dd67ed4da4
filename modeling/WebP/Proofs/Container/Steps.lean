import Mathlib.Data.List.Induction
import WebP.Parser
import WebP.Proofs.Chunk.Tiling
import WebP.Proofs.Container.Framing
import WebP.Proofs.Image.Acceptance

/-!
# What each chunk does

One lemma for each kind of chunk says when the chunk is taken and what is known of the file
afterwards. The headers of a fixed size are given by their decoding, so that no later argument
has to open a reader.

## Main results

* `WebP.Assembly.addFrame_eq_ok_iff`, `WebP.Assembly.addImage_eq_ok_iff` and their likes: one
  chunk of a file.
* `WebP.FrameContent.addImage_eq_ok_iff`, `WebP.FrameContent.read_eq_ok_iff`: one chunk inside a
  frame, and the whole of a frame.
* `WebP.Assembly.check_eq_ok_iff`: what is compared at the end.
* `WebP.FileHeader.read_eq_ok_iff`: the reading of a file in its parts.
* `WebP.Outcome.foldlM_spec`: one chunk after another.
-/

namespace WebP

open Outcome

/-! ### Taking a list of chunks -/

namespace Outcome

variable {ε σ α : Type} {step : σ → α → Outcome ε σ}

theorem foldlM_concat_eq_ok_iff {items : List α} {item : α} {start last : σ} :
    ((items ++ [item]).foldlM step start).result = .ok last ↔
      ∃ state, (items.foldlM step start).result = .ok state ∧
        (step state item).result = .ok last := by
  rw [List.foldlM_append, result_bind_eq_ok]
  simp only [List.foldlM_cons, List.foldlM_nil, bind_pure]

/-- What every step preserves holds at the end. -/
theorem foldlM_preserves (Holds : σ → Prop) {items : List α}
    (hstep : ∀ item ∈ items, ∀ state next, Holds state → (step state item).result = .ok next →
      Holds next)
    {start last : σ} (hstart : Holds start) (h : (items.foldlM step start).result = .ok last) :
    Holds last := by
  induction items generalizing start with
  | nil =>
    cases h
    exact hstart
  | cons item items ih =>
    rw [List.foldlM_cons, result_bind_eq_ok] at h
    obtain ⟨state, hstate, hrest⟩ := h
    obtain ⟨hitem, hitems⟩ := List.forall_mem_cons.mp hstep
    exact ih hitems (hitem start state hstart hstate) hrest

/-- **One item after another.** If a condition on lists can be told one item at a time, and a
step from a state that describes the items so far succeeds exactly for the items that may come
next, then all steps succeed exactly for the lists that meet the condition. The last state
describes the whole list. -/
theorem foldlM_spec (Sized : α → Prop) {Meets : List α → Prop} {Next : List α → α → Prop}
    {Describes : List α → σ → Prop} {start : σ} (hnil : Meets [])
    (hconcat : ∀ items item, Meets (items ++ [item]) ↔ Meets items ∧ Next items item)
    (hstart : Describes [] start)
    (htaken : ∀ items item state, Sized item → Meets items → Describes items state →
      ((∃ next, (step state item).result = .ok next) ↔ Next items item))
    (hstep : ∀ items item state next, Sized item → Meets items → Describes items state →
      Next items item → (step state item).result = .ok next → Describes (items ++ [item]) next)
    (items : List α) (hsized : ∀ item ∈ items, Sized item) :
    ((∃ last, (items.foldlM step start).result = .ok last) ↔ Meets items) ∧
      ∀ last, (items.foldlM step start).result = .ok last → Describes items last := by
  induction items using List.reverseRecOn with
  | nil =>
    refine ⟨⟨fun _ => hnil, fun _ => ⟨start, rfl⟩⟩, ?_⟩
    rintro last ⟨⟩
    exact hstart
  | append_singleton items item ih =>
    obtain ⟨hfront, hlast⟩ := List.forall_mem_append.mp hsized
    have hitem : Sized item := hlast item (List.mem_singleton_self item)
    obtain ⟨hmeets, hdescribes⟩ := ih hfront
    have hrun : ∀ last, ((items ++ [item]).foldlM step start).result = .ok last →
        Meets items ∧ Next items item ∧ Describes (items ++ [item]) last := by
      intro last h
      obtain ⟨state, hstate, hnext⟩ := foldlM_concat_eq_ok_iff.mp h
      have hm := hmeets.mp ⟨state, hstate⟩
      have hd := hdescribes state hstate
      have hn := (htaken items item state hitem hm hd).mp ⟨last, hnext⟩
      exact ⟨hm, hn, hstep items item state last hitem hm hd hn hnext⟩
    refine ⟨⟨?_, ?_⟩, fun last h => (hrun last h).2.2⟩
    · rintro ⟨last, h⟩
      obtain ⟨hm, hn, -⟩ := hrun last h
      exact (hconcat items item).mpr ⟨hm, hn⟩
    · intro h
      obtain ⟨hm, hn⟩ := (hconcat items item).mp h
      obtain ⟨state, hstate⟩ := hmeets.mpr hm
      obtain ⟨last, hnext⟩ :=
        (htaken items item state hitem hm (hdescribes state hstate)).mpr hn
      exact ⟨last, foldlM_concat_eq_ok_iff.mpr ⟨state, hstate, hnext⟩⟩

end Outcome

/-- The chunks of a range are taken to the end exactly if the range is a run of chunks and each
of them is taken. -/
theorem Walker.fold_walk_eq_ok_iff {σ : Type} {offset : Nat} {bytes : Bytes}
    {step : σ → Chunk → Parsed σ} {start last : σ} (hlt : bytes.length < 2 ^ 32) :
    ((Walker.mk offset bytes).walk.fold step start).result = .ok last ↔
      ∃ chunks, Tiles offset bytes chunks ∧ (chunks.foldlM step start).result = .ok last := by
  simp only [← Walker.walk_eq_iff_tiles hlt]
  obtain ⟨found, fault⟩ := (Walker.mk offset bytes).walk
  rw [Walk.fold, result_bind_eq_ok]
  cases fault with
  | none =>
    simp only [result_pure, Except.ok.injEq, exists_eq_right, Walk.mk.injEq, and_true,
      exists_eq_left']
  | some fault =>
    simp only [result_error, reduceCtorEq, and_false, exists_false, Walk.mk.injEq, false_and]

/-! ### Inside a frame -/

/-- The chunks inside a frame stand behind its header. -/
theorem Chunk.children_frameHeader {chunk : Chunk}
    (h : FrameHeader.encodedLength ≤ chunk.payload.length) :
    chunk.children FrameHeader.encodedLength =
      ⟨chunk.offset + 24, chunk.payload.drop FrameHeader.encodedLength⟩ := by
  rw [Chunk.children, Nat.min_eq_left h]
  rfl

namespace FrameContent

variable {config : Config} {size : Size} {content next : FrameContent} {chunk : Chunk}
  {format : ImageFormat}

theorem addAlpha_eq_ok_iff :
    (content.addAlpha chunk).result = .ok next ↔
      content.alpha = none ∧ content.image = none ∧
        ∃ info, (AlphaInfo.inspect chunk.payload).result = .ok info ∧
          next = { content with alpha := some (info, chunk.payloadSpan) } := by
  simp only [addAlpha, result_bind_eq_ok, result_ensure_eq_ok, result_pure, Except.ok.injEq,
    exists_const, @eq_comm _ next]

theorem addImage_eq_ok_iff :
    (content.addImage config size format chunk).result = .ok next ↔
      content.image = none ∧ (format = .lossless → content.alpha = none) ∧
        ∃ info, (ImageInfo.inspect config format chunk.payload).result = .ok info ∧
          info.size = size ∧
          next = { content with image := some (info, chunk.payloadSpan) } := by
  have hsize (info : ImageInfo) : info.ensureSize size = .ok () ↔ info.size = size := by
    unfold ImageInfo.ensureSize
    split <;> simp only [*, reduceCtorEq]
  simp only [addImage, result_bind_eq_ok, result_ensure_eq_ok, result_noting_eq_ok,
    result_ofExcept, hsize, result_pure, Except.ok.injEq, exists_const, @eq_comm _ next]

theorem add_of_alpha (hkind : chunk.kind = .alpha) :
    (content.add config size chunk).result = (content.addAlpha chunk).result := by
  rw [add, hkind]
  rfl

theorem add_of_image (hkind : chunk.kind = format.kind) :
    (content.add config size chunk).result =
      (content.addImage config size format chunk).result := by
  rw [add, hkind]
  cases format <;> rfl

/-- What is behind the header of a frame is a run of chunks, each of them is taken, and there is
an image. -/
theorem read_eq_ok_iff {place : Placement} {duration : Nat} {frame : Frame}
    (hlt : chunk.payload.length < 2 ^ 32)
    (hlong : FrameHeader.encodedLength ≤ chunk.payload.length) :
    (read config place duration (chunk.children FrameHeader.encodedLength)).result =
        .ok frame ↔
      ∃ parts, Tiles (chunk.offset + 24) (chunk.payload.drop FrameHeader.encodedLength) parts ∧
        ∃ content, (parts.foldlM (add config place.rect.size) {}).result = .ok content ∧
          content.frame? place duration = some frame := by
  have hrest : (chunk.payload.drop FrameHeader.encodedLength).length < 2 ^ 32 := by
    rw [List.length_drop]
    omega
  rw [read, Chunk.children_frameHeader hlong, result_bind_eq_ok]
  simp only [Walker.fold_walk_eq_ok_iff hrest]
  constructor
  · rintro ⟨content, ⟨parts, htiles, hfold⟩, himage⟩
    refine ⟨parts, htiles, content, hfold, ?_⟩
    split at himage
    · rename_i found hfound
      rw [hfound, ← Except.ok.inj himage]
    · cases himage
  · rintro ⟨parts, htiles, content, hfold, himage⟩
    refine ⟨content, ⟨parts, htiles, hfold⟩, ?_⟩
    rw [himage]
    rfl

end FrameContent

/-! ### The chunks of a file -/

namespace Assembly

variable {config : Config} {file next : Assembly} {chunk : Chunk} {format : ImageFormat}

theorem addCanvas_eq_ok_iff :
    (file.addCanvas config chunk).result = .ok next ↔
      ¬ file.Has .canvas ∧ ¬ file.HasImage ∧
        chunk.payload.length = CanvasHeader.encodedLength ∧
        next = { file with
          seen := file.seen.insert .canvas
          extended := some (.decode chunk.payload)
          canvas := some (CanvasHeader.decode chunk.payload).canvas } := by
  simp only [addCanvas, warnIfOversized, Chunk.read, result_bind_eq_ok, result_ensure_eq_ok,
    result_noting_eq_ok, result_emit, result_emitIf, result_pure, Except.ok.injEq, exists_const,
    true_and, @eq_comm _ next]
  refine and_congr_right fun _ => and_congr_right fun _ => and_congr_right fun hlength => ?_
  simp only [CanvasHeader.result_read (Nat.le_of_eq hlength.symm), Except.ok.injEq, exists_eq_left']

theorem addAnimation_eq_ok_iff :
    (file.addAnimation chunk).result = .ok next ↔
      file.Has .canvas ∧ ¬ file.Has .animation ∧
        chunk.payload.length = AnimationHeader.encodedLength ∧
        next = { file with
          seen := file.seen.insert .animation
          animation := some (.decode chunk.payload) } := by
  simp only [addAnimation, Chunk.read, result_bind_eq_ok, result_ensure_eq_ok,
    result_noting_eq_ok, result_emit, result_pure, Except.ok.injEq, exists_const, true_and,
    @eq_comm _ next]
  refine and_congr_right fun _ => and_congr_right fun _ => and_congr_right fun hlength => ?_
  simp only [AnimationHeader.result_read (Nat.le_of_eq hlength.symm), Except.ok.injEq,
    exists_eq_left']

theorem addFrame_eq_ok_iff :
    (file.addFrame config chunk).result = .ok next ↔
      file.Has .animation ∧ chunk.payload.length % 2 = 0 ∧
        FrameHeader.encodedLength ≤ chunk.payload.length ∧
        (FrameHeader.decode chunk.payload).rect.x ≤ maxFrameOffset ∧
        (FrameHeader.decode chunk.payload).rect.y ≤ maxFrameOffset ∧
        ∃ canvas, file.canvas = some canvas ∧
          (FrameHeader.decode chunk.payload).rect.FitsWithin canvas ∧
          ∃ frame,
            (FrameContent.read config
              (placement file.frames.length (FrameHeader.decode chunk.payload))
              (frameDuration config (FrameHeader.decode chunk.payload).duration)
              (chunk.children FrameHeader.encodedLength)).result = .ok frame ∧
            next = { file with
              seen := file.seen.insert .frame
              frames := file.frames ++ [frame] } := by
  simp only [addFrame, Chunk.read, result_bind_eq_ok, result_ensure_eq_ok, result_noting_eq_ok,
    result_emit, exists_const, true_and]
  refine and_congr_right fun _ => and_congr_right fun _ => and_congr_right fun hlength => ?_
  simp only [FrameHeader.result_read hlength, Except.ok.injEq, exists_eq_left', and_assoc]
  refine and_congr_right fun _ => and_congr_right fun _ => ?_
  cases file.canvas with
  | none => simp only [result_fail, reduceCtorEq, false_and, exists_false]
  | some canvas =>
    simp only [result_bind_eq_ok, result_ensure_eq_ok, result_noting_eq_ok, result_pure,
      Except.ok.injEq, exists_const, Option.some.injEq, exists_eq_left', @eq_comm _ next]

/-- The canvas of a still image is the announced one, which the image must have the size of. -/
theorem stillCanvas_eq_ok_iff {image : Size} :
    (file.stillCanvas config format image).result = .ok next ↔
      (∀ header, file.extended = some header → image = header.canvas) ∧
        next =
          { file with canvas := if file.extended.isSome then file.canvas else some image } := by
  obtain ⟨seen, extended, animation, canvas, pendingAlpha, frames, chunks⟩ := file
  unfold stillCanvas
  cases extended with
  | none =>
    simp only [warnIfOversized, result_bind_eq_ok, result_emitIf, result_pure, Except.ok.injEq,
      exists_const, true_and, reduceCtorEq, false_implies, implies_true, Option.isSome_none,
      Bool.false_eq_true, if_false, @eq_comm _ next]
  | some header =>
    simp only [result_bind_eq_ok, result_ensure_eq_ok, result_pure, Except.ok.injEq,
      exists_const, Option.some.injEq, forall_eq', Option.isSome_some, if_true, @eq_comm _ next]

/-- The frame of a still image. -/
def stillFrame (file : Assembly) (chunk : Chunk) (image : ImageInfo) : Frame where
  index := file.frames.length
  rect := .ofSize image.size
  dispose := .keep
  blend := .replace
  duration := 0
  payload := chunk.payloadSpan
  alphaPayload := file.pendingAlpha.map (·.2)
  image := image
  alpha := file.pendingAlpha.map (·.1)

theorem addImage_eq_ok_iff :
    (file.addImage config format chunk).result = .ok next ↔
      ¬ file.HasImage ∧ ¬ file.HasAnimation ∧ (format = .lossless → ¬ file.Has .alpha) ∧
        ∃ info, (ImageInfo.inspect config format chunk.payload).result = .ok info ∧
          (∀ header, file.extended = some header → info.size = header.canvas) ∧
          next = { file with
            seen := file.seen.insert format.kind
            canvas := if file.extended.isSome then file.canvas else some info.size
            frames := file.frames ++ [file.stillFrame chunk info]
            pendingAlpha := none } := by
  simp only [addImage, result_bind_eq_ok, result_ensure_eq_ok, stillCanvas_eq_ok_iff, result_pure,
    Except.ok.injEq, exists_const, and_assoc, exists_and_left, exists_eq_left, stillFrame,
    @eq_comm _ next]

theorem addAlpha_eq_ok_iff :
    (file.addAlpha chunk).result = .ok next ↔
      ¬ file.HasAnimation ∧ file.Has .canvas ∧ ¬ file.HasImage ∧ ¬ file.Has .alpha ∧
        ∃ info, (AlphaInfo.inspect chunk.payload).result = .ok info ∧
          next = { file with
            seen := file.seen.insert .alpha
            pendingAlpha := some (info, chunk.payloadSpan) } := by
  simp only [addAlpha, result_bind_eq_ok, result_ensure_eq_ok, result_pure, Except.ok.injEq,
    exists_const, @eq_comm _ next]

theorem addProfile_eq_ok_iff :
    file.addProfile.result = .ok next ↔
      file.Has .canvas ∧ ¬ (file.HasImage ∨ file.HasAnimation ∨ file.Has .alpha) ∧
        ¬ file.Has .iccp ∧ next = { file with seen := file.seen.insert .iccp } := by
  simp only [addProfile, result_bind_eq_ok, result_ensure_eq_ok, result_pure, Except.ok.injEq,
    exists_const, @eq_comm _ next]

theorem interpret_of_image (hkind : chunk.kind = format.kind) :
    file.interpret config chunk = file.addImage config format chunk := by
  rw [interpret, hkind]
  cases format <;> rfl

theorem add_eq_ok_iff :
    (file.add config chunk).result = .ok next ↔
      ∃ told, (file.interpret config chunk).result = .ok told ∧
        next = { told with chunks := told.chunks ++ [chunk.entry] } := by
  simp only [add, result_bind_eq_ok, result_emit, result_pure, Except.ok.injEq, exists_const,
    true_and, @eq_comm _ next]

/-! ### The end of a file -/

/-- There is a frame, and what an extended header announces is there. -/
theorem check_eq_ok_iff :
    file.check.result = .ok () ↔
      file.frames ≠ [] ∧ ∀ header, file.extended = some header →
        (header.flags.animated → file.Has .animation ∧ file.Has .frame) ∧
          (header.flags.exif ↔ file.Has .exif) ∧ (header.flags.xmp ↔ file.Has .xmp) ∧
          (header.flags.iccp ↔ file.Has .iccp) ∧
          (header.flags.animated ∨ file.frames.length ≤ 1) := by
  unfold check
  cases file.extended with
  | none =>
    simp only [Option.forM, result_bind_eq_ok, result_pure, result_ensure_eq_ok,
      exists_const, true_and, reduceCtorEq, false_implies, implies_true, and_true]
  | some header =>
    simp only [Option.forM, checkAnimation, checkFlags, result_bind_eq_ok, result_ensure_eq_ok,
      result_emitIf, exists_const, true_and, Option.some.injEq, forall_eq']
    exact and_left_comm

end Assembly

/-! ### A whole file -/

theorem Walker.over_of_isFramed {data : Bytes} (h : IsFramed data) :
    Walker.over data ⟨12, data.declaredLength + 8⟩ =
      ⟨12, data.slice ⟨12, data.declaredLength + 8⟩⟩ := by
  have hge := h.declared_ge
  rw [Walker.over]
  dsimp only
  rw [Nat.min_eq_left h.complete, Nat.min_eq_left (by omega)]

/-- **Reading a file, in its parts.** The input is framed, what is inside is a run of chunks,
each of them is taken, and at the end nothing is missing. -/
theorem FileHeader.read_eq_ok_iff {config : Config} {data : Bytes} {header : FileHeader} :
    (FileHeader.read config data).result = .ok header ↔
      IsFramed data ∧ ∃ chunks,
        Tiles 12 (data.slice ⟨12, data.declaredLength + 8⟩) chunks ∧
        ∃ file, (chunks.foldlM (Assembly.add config) {}).result = .ok file ∧
          file.check.result = .ok () ∧ header = file.toHeader (data.declaredLength + 8) := by
  simp only [FileHeader.read, result_bind_eq_ok, chunkSpan_eq_ok_iff, and_assoc,
    exists_and_left, exists_eq_left, result_pure, Except.ok.injEq, @eq_comm _ header]
  refine and_congr_right fun hframed => ?_
  simp only [Walker.over_of_isFramed hframed,
    Walker.fold_walk_eq_ok_iff hframed.length_chunks_lt]
  constructor
  · rintro ⟨file, ⟨chunks, htiles, hfold⟩, _, hcheck, hheader⟩
    exact ⟨chunks, htiles, file, hfold, hcheck, hheader⟩
  · rintro ⟨chunks, htiles, file, hfold, hcheck, hheader⟩
    exact ⟨file, ⟨chunks, htiles, hfold⟩, _, hcheck, hheader⟩

/-- A parser that was just made reads a file as it is read once. -/
theorem result_parse (config : Config) (data : Bytes) :
    (parse config data).result = (FileHeader.read config data).result :=
  Parser.result_parseUnlatched { config } data

/-- Of a framed input the chunks are taken, and what must hold at the end is checked. -/
theorem result_parse_of_isFramed {config : Config} {data : Bytes} (h : IsFramed data) :
    (parse config data).result =
      ((Walker.mk 12 (data.slice ⟨12, data.declaredLength + 8⟩)).walk.fold
        (Assembly.add config) {} >>= fun file => file.check >>= fun _ =>
          pure (file.toHeader (data.declaredLength + 8))).result := by
  rw [result_parse, FileHeader.read, result_bind, chunkSpan_eq_ok_iff.mpr ⟨h, rfl⟩,
    ← Walker.over_of_isFramed h]
  rfl

end WebP
