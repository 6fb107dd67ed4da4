import Mathlib.Data.List.Forall2
import WebP.Proofs.Container.Grammar
import WebP.Proofs.Container.Seen

/-!
# Which inputs are accepted

A reader decides chunk by chunk, from what it has seen. What it has seen is described by the list
of chunks so far, and so it accepts exactly the inputs whose chunks are in the grammar of a file.

## Main definitions

* `WebP.Assembly.Describes`: what is known of a file after given chunks.
* `WebP.Frame.ComesFrom`: a frame and the chunk that brought it.

## Main results

* `WebP.Assembly.foldlM_add`: taking chunk after chunk.
* `WebP.exists_parse_iff`: which inputs are accepted.
-/

namespace WebP

open Outcome

/-- The frame was brought by the chunk: a still image is the whole payload of its chunk, and the
image and the alpha plane of a frame of an animation lie inside its chunk. -/
structure Frame.ComesFrom (chunk : Chunk) (frame : Frame) : Prop where
  still : chunk.kind.isImage → frame.payload = chunk.payloadSpan
  animated : chunk.kind = .frame → frame.payload.Within chunk.payloadSpan ∧
    ∀ span, frame.alphaPayload = some span → span.Within chunk.payloadSpan

namespace Assembly

variable {config : Config} {file next : Assembly} {chunks : List Chunk} {chunk : Chunk}

/-- What is known of a file after the chunks `chunks`. -/
structure Describes (chunks : List Chunk) (file : Assembly) : Prop where
  chunks_eq : file.chunks = chunks.map Chunk.entry
  sees : file.SeesDirectory
  extended_eq : file.extended = extended? chunks
  canvas_eq : ∀ header, file.extended = some header → file.canvas = some header.canvas
  /-- Each chunk that brings a frame has brought one, in order. -/
  frames : List.Forall₂ Frame.ComesFrom (chunks.filter (·.kind.bringsFrame)) file.frames
  index_eq : ∀ (i : Nat) (frame : Frame), file.frames[i]? = some frame → frame.index = i

theorem describes_nil : Describes [] {} where
  chunks_eq := rfl
  sees := seesDirectory_nil
  extended_eq := rfl
  canvas_eq _ h := nomatch h
  frames := .nil
  index_eq _ _ h := nomatch h

namespace Describes

theorem kinds_eq (hd : Describes chunks file) :
    file.chunks.map ChunkEntry.kind = chunks.map Chunk.kind := by
  rw [hd.chunks_eq, List.map_map]
  rfl

theorem has_iff (hd : Describes chunks file) (kind : ChunkKind) (hknown : kind.isKnown) :
    file.Has kind ↔ kind ∈ chunks.map Chunk.kind := by
  rw [hd.sees.has_iff hknown, ← List.mem_map, hd.kinds_eq]

theorem not_hasImage_iff (hd : Describes chunks file) :
    ¬ file.HasImage ↔ ∀ k ∈ chunks.map Chunk.kind, ¬ k.isImage := by
  rw [HasImage, hd.has_iff .lossy rfl, hd.has_iff .lossless rfl]
  constructor
  · rintro hnone k hk himage
    rcases ChunkKind.isImage_iff.mp himage with rfl | rfl
    · exact hnone (.inl hk)
    · exact hnone (.inr hk)
  · rintro hnone (hk | hk)
    · exact hnone _ hk rfl
    · exact hnone _ hk rfl

theorem hasAnimation_iff (hd : Describes chunks file) :
    file.HasAnimation ↔
      .animation ∈ chunks.map Chunk.kind ∨ .frame ∈ chunks.map Chunk.kind := by
  rw [HasAnimation, hd.has_iff .animation rfl, hd.has_iff .frame rfl]

/-- In an allowed order, a part of an animation is there only if its header is. -/
theorem not_hasAnimation_iff (hd : Describes chunks file) (hg : ChunkGrammar chunks) :
    ¬ file.HasAnimation ↔ .animation ∉ chunks.map Chunk.kind := by
  rw [hd.hasAnimation_iff, not_or, and_iff_left_iff_imp]
  exact fun hanimation hframe => hanimation (hg.layout.frame_animated.mem hframe)

end Describes

/-! ### What a chunk may be -/

/-- A frame of an animation is taken exactly if it may follow and fits the canvas. -/
theorem Describes.exists_addFrame_iff (hd : Describes chunks file) (hg : ChunkGrammar chunks)
    (hlt : chunk.payload.length < 2 ^ 32) :
    (∃ next, (file.addFrame config chunk).result = .ok next) ↔
      .animation ∈ chunks.map Chunk.kind ∧
        ∃ header, file.extended = some header ∧ chunk.FitsCanvas header.canvas := by
  simp only [addFrame_eq_ok_iff, hd.has_iff .animation rfl]
  constructor
  · rintro ⟨next, hanimation, heven, hge, hx, hy, canvas, hcanvas, hfits, frame, hread, -⟩
    obtain ⟨header, hextended⟩ : ∃ header, file.extended = some header := by
      rw [← Option.ne_none_iff_exists', hd.extended_eq, ne_eq, extended?_eq_none_iff, not_not]
      exact hg.layout.animation_extended.mem hanimation
    obtain rfl : canvas = header.canvas :=
      Option.some.inj (hcanvas.symm.trans (hd.canvas_eq header hextended))
    exact ⟨hanimation, header, hextended, heven, hge, hx, hy, hfits,
      (FrameContent.exists_read_iff hlt hge config _ _).mp ⟨frame, hread⟩⟩
  · rintro ⟨hanimation, header, hextended, heven, hge, hx, hy, hfits, hcontent⟩
    obtain ⟨frame, hread⟩ := (FrameContent.exists_read_iff hlt hge config
      (placement file.frames.length (.decode chunk.payload))
      (frameDuration config (FrameHeader.decode chunk.payload).duration)).mpr hcontent
    exact ⟨_, hanimation, heven, hge, hx, hy, header.canvas, hd.canvas_eq header hextended,
      hfits, frame, hread, rfl⟩

/-- A still image is taken exactly if it may follow and has the size of the canvas. -/
theorem Describes.exists_addImage_iff (hd : Describes chunks file) (hg : ChunkGrammar chunks)
    {format : ImageFormat} :
    (∃ next, (file.addImage config format chunk).result = .ok next) ↔
      Follows (chunks.map Chunk.kind) format.kind ∧
        ∃ size, format.Accepts chunk.payload size ∧
          ∀ header, file.extended = some header → size = header.canvas := by
  simp only [addImage_eq_ok_iff, hd.not_hasImage_iff, hd.not_hasAnimation_iff hg,
    hd.has_iff .alpha rfl, exists_and_left, ImageFormat.accepts_iff config]
  cases format <;> simp [Follows, ImageFormat.kind, and_assoc]

/-- A chunk is taken exactly if it may follow and has the payload that its kind asks for. -/
theorem Describes.exists_add_iff (hd : Describes chunks file) (hg : ChunkGrammar chunks)
    (hlt : chunk.payload.length < 2 ^ 32) :
    (∃ next, (file.add config chunk).result = .ok next) ↔
      Follows (chunks.map Chunk.kind) chunk.kind ∧ chunk.FitsFile (extended? chunks) := by
  have hinterpret : (∃ next, (file.add config chunk).result = .ok next) ↔
      ∃ told, (file.interpret config chunk).result = .ok told := by
    simp only [add_eq_ok_iff]
    exact ⟨fun ⟨_, told, h, _⟩ => ⟨told, h⟩, fun ⟨told, h⟩ => ⟨_, told, h, rfl⟩⟩
  rw [hinterpret, interpret, Chunk.fitsFile_iff, ← hd.extended_eq]
  simp only [ImageFormat.forall_iff, ImageFormat.kind]
  obtain ⟨kind, offset, payload⟩ := chunk
  cases kind with
  | canvas =>
    simp [addCanvas_eq_ok_iff, hd.has_iff .canvas rfl, hd.not_hasImage_iff, Follows,
      CanvasHeader.encodedLength, and_assoc]
  | animation =>
    simp [addAnimation_eq_ok_iff, hd.has_iff .canvas rfl, hd.has_iff .animation rfl, Follows,
      AnimationHeader.encodedLength, and_assoc]
  | frame =>
    simp only [hd.exists_addFrame_iff hg hlt]
    simp [Follows]
  | lossy =>
    simp [hd.exists_addImage_iff hg, ImageFormat.kind]
  | lossless =>
    simp [hd.exists_addImage_iff hg, ImageFormat.kind]
  | alpha =>
    simp [addAlpha_eq_ok_iff, hd.has_iff .canvas rfl, hd.has_iff .alpha rfl, hd.not_hasImage_iff,
      hd.not_hasAnimation_iff hg, Follows, AlphaInfo.Accepts]
    tauto
  | iccp =>
    simp [addProfile_eq_ok_iff, hd.has_iff .canvas rfl, hd.has_iff .alpha rfl, hd.has_iff .iccp rfl,
      hd.not_hasImage_iff, hd.hasAnimation_iff, Follows, and_assoc]
  | exif | xmp => simp [Follows]
  | unknown name =>
    simp only [Follows, result_bind_eq_ok, result_emit, result_pure, Except.ok.injEq,
      exists_const, true_and, exists_eq', reduceCtorEq, false_implies, and_self]

/-! ### What is known behind a chunk -/

/-- A chunk that brings no frame. -/
theorem Describes.concat_of_not_bringsFrame {told : Assembly} (hd : Describes chunks file)
    (htold : (file.interpret config chunk).result = .ok told)
    (hkind : ¬ chunk.kind.bringsFrame)
    (hextended : told.extended = extended? (chunks ++ [chunk]))
    (hcanvas : ∀ header, told.extended = some header → told.canvas = some header.canvas)
    (hframes : told.frames = file.frames) :
    Describes (chunks ++ [chunk]) { told with chunks := told.chunks ++ [chunk.entry] } where
  chunks_eq := by
    change told.chunks ++ [chunk.entry] = _
    rw [(seen_of_interpret htold).2, hd.chunks_eq, List.map_append, List.map_singleton]
  sees := hd.sees.add (add_eq_ok_iff.mpr ⟨told, htold, rfl⟩)
  extended_eq := hextended
  canvas_eq := hcanvas
  frames := by
    change List.Forall₂ _ _ told.frames
    rw [hframes, List.filter_append, List.filter_singleton, Bool.eq_false_iff.mpr hkind,
      cond_false, List.append_nil]
    exact hd.frames
  index_eq := by
    change ∀ (i : Nat) (frame : Frame), told.frames[i]? = some frame → frame.index = i
    rw [hframes]
    exact hd.index_eq

/-- A chunk that brings a frame. -/
theorem Describes.concat_of_bringsFrame {told : Assembly} {frame : Frame}
    (hd : Describes chunks file) (htold : (file.interpret config chunk).result = .ok told)
    (hkind : chunk.kind.bringsFrame) (hextended : told.extended = file.extended)
    (hcanvas : ∀ header, told.extended = some header → told.canvas = some header.canvas)
    (hframes : told.frames = file.frames ++ [frame]) (hindex : frame.index = file.frames.length)
    (hframe : frame.ComesFrom chunk) :
    Describes (chunks ++ [chunk]) { told with chunks := told.chunks ++ [chunk.entry] } where
  chunks_eq := by
    change told.chunks ++ [chunk.entry] = _
    rw [(seen_of_interpret htold).2, hd.chunks_eq, List.map_append, List.map_singleton]
  sees := hd.sees.add (add_eq_ok_iff.mpr ⟨told, htold, rfl⟩)
  extended_eq := by
    have hne : chunk.kind ≠ .canvas := by
      intro h
      rw [h] at hkind
      exact Bool.false_ne_true hkind
    change told.extended = _
    rw [hextended, hd.extended_eq, extended?_concat_of_ne hne]
  canvas_eq := hcanvas
  frames := by
    change List.Forall₂ _ _ told.frames
    rw [hframes, List.filter_append, List.filter_singleton, hkind, cond_true]
    exact List.rel_append hd.frames (.cons hframe .nil)
  index_eq i found hfound := by
    change told.frames[i]? = some found at hfound
    rw [hframes] at hfound
    rcases Nat.lt_trichotomy i file.frames.length with hi | rfl | hi
    · rw [List.getElem?_append_left hi] at hfound
      exact hd.index_eq i found hfound
    · rw [List.getElem?_concat_length] at hfound
      obtain rfl := Option.some.inj hfound
      exact hindex
    · rw [List.getElem?_eq_none (by rw [List.length_append]; exact hi)] at hfound
      cases hfound

theorem Describes.addFrame (hd : Describes chunks file) (hlt : chunk.payload.length < 2 ^ 32)
    (hkind : chunk.kind = .frame) {told : Assembly}
    (htold : (file.interpret config chunk).result = .ok told) :
    Describes (chunks ++ [chunk]) { told with chunks := told.chunks ++ [chunk.entry] } := by
  have h := htold
  rw [interpret, hkind] at h
  obtain ⟨-, -, hge, -, -, canvas, hcanvas, -, frame, hread, rfl⟩ := addFrame_eq_ok_iff.mp h
  have hplace := FrameContent.toPlacement_of_read hlt hge hread
  refine hd.concat_of_bringsFrame htold (by rw [hkind]; rfl) rfl hd.canvas_eq rfl
    (congrArg Placement.index hplace) ⟨fun himage => ?_, fun _ => ?_⟩
  · rw [hkind] at himage
    cases himage
  · exact FrameContent.spans_within hlt hge hread

theorem Describes.addImage (hd : Describes chunks file) (format : ImageFormat)
    (hkind : chunk.kind = format.kind) {told : Assembly}
    (htold : (file.interpret config chunk).result = .ok told) :
    Describes (chunks ++ [chunk]) { told with chunks := told.chunks ++ [chunk.entry] } := by
  have h := htold
  rw [interpret_of_image hkind] at h
  obtain ⟨-, -, -, info, hinfo, hsize, rfl⟩ := addImage_eq_ok_iff.mp h
  refine hd.concat_of_bringsFrame htold ?_ rfl ?_ rfl rfl ⟨fun _ => rfl, fun hframe => ?_⟩
  · rw [hkind]
    cases format <;> rfl
  · intro header hheader
    change file.extended = some header at hheader
    change (if file.extended.isSome then file.canvas else _) = _
    rw [hheader, if_pos Option.isSome_some, hd.canvas_eq header hheader]
  · rw [hkind] at hframe
    cases format <;> cases hframe

/-- What is known of a file stays known one chunk later. -/
theorem Describes.add (hd : Describes chunks file) (hlt : chunk.payload.length < 2 ^ 32)
    (h : (file.add config chunk).result = .ok next) : Describes (chunks ++ [chunk]) next := by
  obtain ⟨told, htold, rfl⟩ := add_eq_ok_iff.mp h
  have hsame : ∀ {kind : ChunkKind}, chunk.kind = kind → kind ≠ .canvas → ¬ kind.bringsFrame →
      told.extended = file.extended → told.canvas = file.canvas → told.frames = file.frames →
      Describes (chunks ++ [chunk]) { told with chunks := told.chunks ++ [chunk.entry] } := by
    rintro _ rfl hcanvas hframe hextended hsize hframes
    refine hd.concat_of_not_bringsFrame htold hframe ?_ ?_ hframes
    · rw [hextended, hd.extended_eq, extended?_concat_of_ne hcanvas]
    · rw [hextended, hsize]
      exact hd.canvas_eq
  have hinterpret := htold
  rw [interpret] at hinterpret
  cases hkind : chunk.kind with
  | canvas =>
    rw [hkind] at hinterpret
    obtain ⟨hcanvas, -, -, rfl⟩ := addCanvas_eq_ok_iff.mp hinterpret
    rw [hd.has_iff .canvas rfl] at hcanvas
    refine hd.concat_of_not_bringsFrame htold (by rw [hkind]; exact Bool.false_ne_true)
      (extended?_concat_canvas hcanvas hkind).symm ?_ rfl
    rintro header ⟨⟩
    rfl
  | animation =>
    rw [hkind] at hinterpret
    obtain ⟨-, -, -, rfl⟩ := addAnimation_eq_ok_iff.mp hinterpret
    exact hsame hkind (by rintro ⟨⟩) Bool.false_ne_true rfl rfl rfl
  | frame => exact hd.addFrame hlt hkind htold
  | lossy => exact hd.addImage .lossy hkind htold
  | lossless => exact hd.addImage .lossless hkind htold
  | alpha =>
    rw [hkind] at hinterpret
    obtain ⟨-, -, -, -, info, -, rfl⟩ := addAlpha_eq_ok_iff.mp hinterpret
    exact hsame hkind (by rintro ⟨⟩) Bool.false_ne_true rfl rfl rfl
  | iccp =>
    rw [hkind] at hinterpret
    obtain ⟨-, -, -, rfl⟩ := addProfile_eq_ok_iff.mp hinterpret
    exact hsame hkind (by rintro ⟨⟩) Bool.false_ne_true rfl rfl rfl
  | exif | xmp | unknown _ =>
    rw [hkind] at hinterpret
    cases hinterpret
    exact hsame hkind (by rintro ⟨⟩) Bool.false_ne_true rfl rfl rfl

/-- **Chunk after chunk.** Chunks are taken one after another exactly if they are in the grammar,
and then they are what is known of the file. -/
theorem foldlM_add (config : Config) (chunks : List Chunk)
    (hlt : ∀ chunk ∈ chunks, chunk.payload.length < 2 ^ 32) :
    ((∃ file, (chunks.foldlM (add config) {}).result = .ok file) ↔ ChunkGrammar chunks) ∧
      ∀ file, (chunks.foldlM (add config) {}).result = .ok file → Describes chunks file :=
  foldlM_spec (fun chunk => chunk.payload.length < 2 ^ 32) chunkGrammar_nil
    (fun _ _ => chunkGrammar_concat_iff) describes_nil
    (fun _ _ _ hchunk hg hd => hd.exists_add_iff hg hchunk)
    (fun _ _ _ _ hchunk _ hd _ h => hd.add hchunk h) chunks hlt

/-! ### The end of the file -/

namespace Describes

/-- There are as many frames as chunks that bring one. -/
theorem length_frames (hd : Describes chunks file) :
    file.frames.length = (chunks.map Chunk.kind).countP ChunkKind.bringsFrame := by
  rw [← hd.frames.length_eq, List.countP_map, ← List.countP_eq_length_filter]
  rfl

theorem frames_ne_nil_iff (hd : Describes chunks file) :
    file.frames ≠ [] ↔ ∃ chunk ∈ chunks, chunk.kind.bringsFrame := by
  rw [← List.length_pos_iff, hd.length_frames, List.countP_pos_iff]
  simp only [List.mem_map, exists_exists_and_eq_and]

/-- What is compared at the end of a file is said by the grammar of a whole file. -/
theorem check_iff (hd : Describes chunks file) (hg : ChunkGrammar chunks) :
    file.check.result = .ok () ↔ FileGrammar chunks := by
  rw [check_eq_ok_iff, hd.frames_ne_nil_iff, hd.extended_eq, hd.length_frames]
  simp only [hd.has_iff .animation rfl, hd.has_iff .frame rfl, hd.has_iff .exif rfl,
    hd.has_iff .xmp rfl, hd.has_iff .iccp rfl]
  constructor
  · rintro ⟨hframed, hannounced⟩
    refine ⟨hg, hframed, fun header hheader => ?_⟩
    obtain ⟨hanimation, hexif, hxmp, hiccp, hsingle⟩ := hannounced header hheader
    exact ⟨hanimation, hexif, hxmp, hiccp, hsingle⟩
  · intro h
    refine ⟨h.framed, fun header hheader => ?_⟩
    obtain ⟨hanimation, hexif, hxmp, hiccp, hsingle⟩ := h.announced header hheader
    exact ⟨hanimation, hexif, hxmp, hiccp, hsingle⟩

end Describes

end Assembly

/-- The chunks of an accepted input are taken one after another, and its description is that of what
they told. -/
theorem assembly_of_parse {config : Config} {data : Bytes} {header : FileHeader}
    (h : (parse config data).result = .ok header) :
    IsFramed data ∧ ∃ chunks file,
      Tiles 12 (data.slice ⟨12, data.declaredLength + 8⟩) chunks ∧
      (chunks.foldlM (Assembly.add config) {}).result = .ok file ∧ FileGrammar chunks ∧
      Assembly.Describes chunks file ∧ header = file.toHeader (data.declaredLength + 8) := by
  rw [result_parse, FileHeader.read_eq_ok_iff] at h
  obtain ⟨hframed, chunks, htiles, file, hfold, hcheck, hheader⟩ := h
  obtain ⟨htaken, hdescribes⟩ := Assembly.foldlM_add config chunks fun _ => htiles.length_lt
  have hd := hdescribes file hfold
  exact ⟨hframed, chunks, file, htiles, hfold,
    (hd.check_iff (htaken.mp ⟨file, hfold⟩)).mp hcheck, hd, hheader⟩

/-- The description of an accepted input is that of its chunks. -/
theorem describes_of_parse {config : Config} {data : Bytes} {header : FileHeader}
    (h : (parse config data).result = .ok header) :
    IsFramed data ∧ ∃ chunks file,
      Tiles 12 (data.slice ⟨12, data.declaredLength + 8⟩) chunks ∧ FileGrammar chunks ∧
      Assembly.Describes chunks file ∧ header = file.toHeader (data.declaredLength + 8) := by
  obtain ⟨hframed, chunks, file, htiles, -, hgrammar, hd, hheader⟩ := assembly_of_parse h
  exact ⟨hframed, chunks, file, htiles, hgrammar, hd, hheader⟩

/-- **Which inputs are accepted.** Whatever its settings are, a parser accepts exactly the inputs
that begin with the header of a file of which no byte is missing, and in which the bytes up to
the declared end are a run of chunks in the grammar of a file. -/
theorem exists_parse_iff (config : Config) (data : Bytes) :
    (∃ header, (parse config data).result = .ok header) ↔
      IsFramed data ∧ ∃ chunks,
        Tiles 12 (data.slice ⟨12, data.declaredLength + 8⟩) chunks ∧ FileGrammar chunks := by
  constructor
  · rintro ⟨header, h⟩
    obtain ⟨hframed, chunks, file, htiles, hgrammar, -, -⟩ := describes_of_parse h
    exact ⟨hframed, chunks, htiles, hgrammar⟩
  · rintro ⟨hframed, chunks, htiles, hgrammar⟩
    obtain ⟨htaken, hdescribes⟩ := Assembly.foldlM_add config chunks fun _ => htiles.length_lt
    obtain ⟨file, hfold⟩ := htaken.mpr hgrammar.toChunkGrammar
    have hcheck := ((hdescribes file hfold).check_iff hgrammar.toChunkGrammar).mpr hgrammar
    refine ⟨file.toHeader (data.declaredLength + 8), ?_⟩
    rw [result_parse, FileHeader.read_eq_ok_iff]
    exact ⟨hframed, chunks, htiles, file, hfold, hcheck, rfl⟩

end WebP
