import WebP.Proofs.Container.FrameRoundTrip

/-!
# Reading what was written

A file that was written from its description is accepted under all settings, and the header that
is read gives the description back, with each bitstream and alpha plane where it was written. The
proof follows the writer: it says what is known of the file behind each part that was written.

## Main definitions

* `WebP.ExtendedSpec.opened`: what is known of a file in front of its content.
* `WebP.FileSpec.IsTakenAs`: what is known of a file of which all chunks have been taken.

## Main results

* `WebP.ExtendedSpec.foldlM_add_leading`: reading what stands in front of the content.
* `WebP.FileSpec.exists_parse_bytes`: reading a whole file.
-/

namespace WebP

open Outcome

/-! ### The parts of a file -/

namespace Assembly

variable {config : Config} {file next : Assembly}

/-- Which chunks have been taken, if they were written. -/
theorem SeesDirectory.has_iff_of_chunks_eq (h : file.SeesDirectory) {pieces : List Piece}
    {offset : Nat} (hchunks : file.chunks = (Piece.chunks offset pieces).map Chunk.entry)
    (kind : ChunkKind) (hknown : kind.isKnown) :
    file.Has kind ↔ ∃ piece ∈ pieces, piece.kind = kind := by
  have hkinds : file.chunks.map ChunkEntry.kind = pieces.map Piece.kind := by
    rw [← Piece.map_kind_chunks offset, hchunks, List.map_map]
    rfl
  rw [h.has_iff hknown, ← List.mem_map, hkinds, List.mem_map]

/-- Metadata is taken without a look. -/
theorem foldlM_add_metadata (config : Config) {pieces : List Piece}
    (h : ∀ piece ∈ pieces, piece.kind = .exif ∨ piece.kind = .xmp) (file : Assembly)
    (offset : Nat) :
    ((Piece.chunks offset pieces).foldlM (add config) file).result =
      .ok (file.entering (Piece.chunks offset pieces)) := by
  induction pieces generalizing file offset with
  | nil =>
    rw [Piece.chunks, entering_nil]
    rfl
  | cons piece pieces ih =>
    obtain ⟨hpiece, hpieces⟩ := List.forall_mem_cons.mp h
    let chunk : Chunk := ⟨piece.kind, offset, piece.payload⟩
    rw [Piece.chunks, List.foldlM_cons, result_bind_eq_ok]
    refine ⟨file.entering [chunk], ?_, ?_⟩
    · rw [add_eq_ok_iff]
      refine ⟨{ file with seen := file.seen.insert piece.kind }, ?_, rfl⟩
      rcases hpiece with hkind | hkind <;> rw [interpret, hkind] <;> rfl
    · rw [ih hpieces, ← entering_append]
      rfl

section Still

variable (file) {picture : Picture} {offset : Nat} {info : ImageInfo}
  {found : Option (AlphaInfo × Span)}
  (h : picture.Found config offset info found) (himage : ¬ file.HasImage)
  (hanimation : ¬ file.HasAnimation) (halpha : ¬ file.Has .alpha)
  (hcanvas : picture.alpha?.isSome → file.Has .canvas)

include h himage hanimation halpha hcanvas

/-- The alpha plane of a still picture is kept until the image comes. -/
theorem foldlM_add_alpha (hpending : file.pendingAlpha = none) :
    ((Piece.chunks offset (Piece.optional .alph picture.alpha?)).foldlM (add config) file).result =
      .ok { file.entering (Piece.chunks offset (Piece.optional .alph picture.alpha?)) with
        pendingAlpha := found } := by
  obtain ⟨-, hspan, halphaInfo, -⟩ := h
  rw [Picture.alphaSpan] at hspan
  cases hplane : picture.alpha? with
  | none =>
    rw [hplane, Option.map_none, Option.map_eq_none_iff] at hspan
    simp only [Piece.optional, Option.map_none, Option.toList_none, Piece.chunks, entering_nil,
      hspan, ← hpending]
    rfl
  | some plane =>
    rw [hplane, Option.map_some, Option.map_eq_some_iff] at hspan
    obtain ⟨⟨alphaInfo, span⟩, rfl, rfl⟩ := hspan
    rw [hplane, Option.map_some, Option.rel_some_some] at halphaInfo
    simp only [Piece.optional, Option.map_some, Option.toList_some, Piece.chunks,
      List.foldlM_cons, List.foldlM_nil, bind_pure]
    rw [add_eq_ok_iff]
    refine ⟨_, addAlpha_eq_ok_iff.mpr ⟨hanimation, hcanvas ?_, himage, halpha, alphaInfo,
      halphaInfo, rfl⟩, rfl⟩
    rw [hplane]
    rfl

/-- **Reading a still picture.** -/
theorem foldlM_add_still (hpending : file.pendingAlpha = none) (hframes : file.frames = [])
    (hsize : ∀ header, file.extended = some header → info.size = header.canvas) :
    ((Piece.chunks offset picture.pieces).foldlM (add config) file).result =
      .ok { file.entering (Piece.chunks offset picture.pieces) with
        canvas := if file.extended.isSome then file.canvas else some info.size
        frames := [(picture.stillShot info.size offset).frame info found] } := by
  let planes := Piece.chunks offset (Piece.optional .alph picture.alpha?)
  let kept : Assembly := { file.entering planes with pendingAlpha := found }
  have hplanes : (planes.foldlM (add config) file).result = .ok kept :=
    foldlM_add_alpha file h himage hanimation halpha hcanvas hpending
  -- the only chunk that came since is an alpha plane
  have hkinds : ∀ kind ∈ planes.map Chunk.kind, kind = .alpha := by
    simp only [planes]
    cases picture.alpha? with
    | none => exact fun _ h => absurd h List.not_mem_nil
    | some plane => exact List.forall_mem_singleton.mpr rfl
  have hhas (kind : ChunkKind) (hkind : kind ≠ .alpha) : kept.Has kind ↔ file.Has kind :=
    has_entering_iff.trans (or_iff_left fun h => hkind (hkinds kind h.2))
  have hkeptImage : ¬ kept.HasImage := by
    rwa [HasImage, hhas .lossy nofun, hhas .lossless nofun]
  have hkeptAnimation : ¬ kept.HasAnimation := by
    rwa [HasAnimation, hhas .animation nofun, hhas .frame nofun]
  have hkeptAlpha : picture.format = .lossless → ¬ kept.Has .alpha := by
    intro hformat
    refine mt has_entering_iff.mp ?_
    cases picture with
    | lossless payload => exact not_or.mpr ⟨halpha, fun h => absurd h.2 List.not_mem_nil⟩
    | lossy alpha payload => cases hformat
  rw [picture.chunks_pieces, foldlM_concat_eq_ok_iff]
  refine ⟨kept, hplanes, ?_⟩
  rw [add_eq_ok_iff, interpret_of_image rfl]
  refine ⟨_, addImage_eq_ok_iff.mpr
    ⟨hkeptImage, hkeptAnimation, hkeptAlpha, info, h.image, hsize, rfl⟩, ?_⟩
  simp only [kept, planes, entering, hframes, hpending, stillFrame, List.map_append,
    List.map_singleton, KindSet.insertAll_concat, List.append_assoc]
  rfl

end Still

end Assembly

/-! ### Which chunks are there -/

namespace Piece

/-- A chunk that may be left out is there if it has a payload. -/
theorem exists_mem_optional_iff {name : FourCC} {payload : Option Bytes} {kind : ChunkKind} :
    (∃ piece ∈ optional name payload, piece.kind = kind) ↔
      payload.isSome ∧ .ofFourCC name = kind := by
  cases payload <;> simp [optional, Piece.kind]

end Piece

/-- The content of a file is made of images, alpha planes and parts of an animation. -/
theorem FileContent.kind_of_mem_pieces {content : FileContent} {piece : Piece}
    (h : piece ∈ content.pieces) :
    piece.kind ∈ [ChunkKind.alpha, .lossy, .lossless, .animation, .frame] := by
  cases content with
  | still picture =>
    rcases List.mem_append.mp h with halpha | himage
    · obtain ⟨-, hkind⟩ := Piece.exists_mem_optional_iff.mp ⟨piece, halpha, rfl⟩
      rw [← hkind]
      exact List.mem_cons_self
    · obtain rfl := List.mem_singleton.mp himage
      cases picture with
      | lossless payload =>
        change ChunkKind.lossless ∈ _
        decide
      | lossy alpha payload =>
        change ChunkKind.lossy ∈ _
        decide
  | animation header frames =>
    rcases List.mem_cons.mp h with rfl | hframe
    · change ChunkKind.animation ∈ _
      decide
    · obtain ⟨frame, -, rfl⟩ := List.mem_map.mp hframe
      change ChunkKind.frame ∈ _
      decide

/-- The content of a file is no metadata. -/
theorem FileContent.not_metadata (content : FileContent) {kind : ChunkKind}
    (hkind : kind ∉ [ChunkKind.alpha, .lossy, .lossless, .animation, .frame]) :
    ¬ ∃ piece ∈ content.pieces, piece.kind = kind := by
  rintro ⟨piece, hpiece, rfl⟩
  exact hkind (kind_of_mem_pieces hpiece)

namespace ExtendedSpec

variable {file : ExtendedSpec}

/-- Which chunks there are, by the part that they belong to. -/
theorem exists_piece_iff {kind : ChunkKind} :
    (∃ piece ∈ (FileSpec.extended file).pieces, piece.kind = kind) ↔
      kind = .canvas ∨ (file.profile.isSome ∧ kind = .iccp) ∨
        (∃ piece ∈ file.content.pieces, piece.kind = kind) ∨
        (file.exif.isSome ∧ kind = .exif) ∨ (file.xmp.isSome ∧ kind = .xmp) := by
  simp only [FileSpec.pieces, leading, trailing, List.mem_append, List.mem_cons, or_and_right,
    exists_or, exists_eq_left, Piece.exists_mem_optional_iff, or_assoc]
  simp only [@eq_comm _ _ kind]
  rfl

/-- Metadata is there if it was given. -/
theorem exists_metadata_iff :
    ((∃ piece ∈ (FileSpec.extended file).pieces, piece.kind = .iccp) ↔
      file.profile.isSome) ∧
    ((∃ piece ∈ (FileSpec.extended file).pieces, piece.kind = .exif) ↔
      file.exif.isSome) ∧
    ((∃ piece ∈ (FileSpec.extended file).pieces, piece.kind = .xmp) ↔
      file.xmp.isSome) := by
  refine ⟨?_, ?_, ?_⟩ <;>
    rw [exists_piece_iff, iff_false_intro (file.content.not_metadata (by decide))] <;>
    simp only [reduceCtorEq, and_true, and_false, false_or, or_false]

/-- What is known of the file in front of its content. -/
def opened (file : ExtendedSpec) : Assembly :=
  { Assembly.entering {} (Piece.chunks 12 file.leading) with
    extended := some file.header
    canvas := some file.canvas }

/-- Behind the chunks in front of the content, the extended header is known. -/
theorem foldlM_add_leading (hcanvas : file.canvas.IsStorable) (config : Config) :
    ((Piece.chunks 12 file.leading).foldlM (Assembly.add config) {}).result =
      .ok file.opened := by
  have hdecode : CanvasHeader.decode file.header.encode = file.header := by
    have h : CanvasHeader.decode (file.header.encode ++ []) = file.header :=
      CanvasHeader.decode_encode hcanvas []
    rwa [List.append_nil] at h
  have hfirst : (Assembly.add config {} ⟨.canvas, 12, file.header.encode⟩).result =
      .ok { Assembly.entering {} [⟨.canvas, 12, file.header.encode⟩] with
        extended := some file.header
        canvas := some file.canvas } := by
    rw [Assembly.add_eq_ok_iff]
    refine ⟨_, Assembly.addCanvas_eq_ok_iff.mpr ⟨by decide, by decide,
      CanvasHeader.length_encode _, rfl⟩, ?_⟩
    rw [hdecode]
    rfl
  rw [opened, leading, Piece.chunks, List.foldlM_cons, result_bind_eq_ok]
  refine ⟨_, hfirst, ?_⟩
  cases file.profile with
  | none => rfl
  | some profile =>
    simp only [Piece.optional, Option.map_some, Option.toList_some, Piece.chunks,
      List.foldlM_cons, List.foldlM_nil, bind_pure]
    rw [Assembly.add_eq_ok_iff]
    refine ⟨_, Assembly.addProfile_eq_ok_iff.mpr ⟨rfl, ?_, Bool.false_ne_true, rfl⟩, rfl⟩
    rintro ((h | h) | (h | h) | h)
    all_goals exact Bool.false_ne_true h

theorem seesDirectory_opened : file.opened.SeesDirectory := by
  rw [Assembly.SeesDirectory, opened, Assembly.entering, List.nil_append, List.map_map]
  rfl

theorem has_opened_iff (kind : ChunkKind) (hknown : kind.isKnown) :
    file.opened.Has kind ↔ kind = .canvas ∨ (file.profile.isSome ∧ kind = .iccp) := by
  have hopened : file.opened.chunks = (Piece.chunks 12 file.leading).map Chunk.entry := rfl
  simp only [seesDirectory_opened.has_iff_of_chunks_eq hopened kind hknown, leading, List.mem_cons,
    or_and_right, exists_or, exists_eq_left, Piece.exists_mem_optional_iff]
  simp only [@eq_comm _ _ kind]
  rfl

/-- A still picture is taken behind the chunks in front of it. -/
theorem exists_foldlM_add_still {picture : Picture} (h : picture.IsValid file.canvas)
    (config : Config) (offset : Nat) :
    ∃ result, ((Piece.chunks offset picture.pieces).foldlM (Assembly.add config)
        file.opened).result =
      .ok { file.opened.entering (Piece.chunks offset picture.pieces) with
        frames := [result] } ∧
      ∀ data, (picture.stillShot file.canvas offset).StandsIn data →
        (picture.stillShot file.canvas offset).IsReadAs config data result := by
  obtain ⟨info, found, hfound, hsize⟩ := h.exists_found config offset
  have hnot (kind : ChunkKind) (hknown : kind.isKnown) (hcanvas : kind ≠ .canvas)
      (hiccp : kind ≠ .iccp) : ¬ file.opened.Has kind := by
    rw [has_opened_iff kind hknown]
    exact not_or.mpr ⟨hcanvas, fun h => hiccp h.2⟩
  have hfold := Assembly.foldlM_add_still file.opened hfound
    (not_or.mpr ⟨hnot .lossy rfl nofun nofun, hnot .lossless rfl nofun nofun⟩)
    (not_or.mpr ⟨hnot .animation rfl nofun nofun, hnot .frame rfl nofun nofun⟩)
    (hnot .alpha rfl nofun nofun) (fun _ => (has_opened_iff .canvas rfl).mpr (.inl rfl)) rfl rfl
    (fun header hheader => by
      obtain rfl := Option.some.inj hheader
      exact hsize)
  rw [hsize] at hfold
  exact ⟨_, hfold, fun _ hdata => hfound.isReadAs hdata⟩

/-- An animation is taken behind the chunks in front of it. -/
theorem exists_foldlM_add_animation (hcanvas : file.canvas.IsStorable) {header : AnimationHeader}
    {frames : List FrameSpec} (hcontent : (FileContent.animation header frames).IsValid file.canvas)
    (hlt : ∀ frame ∈ frames, frame.piece.payload.length < 2 ^ 32) (config : Config)
    (offset : Nat) :
    let pieces := (FileContent.animation header frames).pieces
    ∃ results, ((Piece.chunks offset pieces).foldlM (Assembly.add config) file.opened).result =
      .ok { file.opened.entering (Piece.chunks offset pieces) with
        animation := some header
        frames := results } ∧
      List.Forall₂ (fun shot frame => ∀ data, shot.StandsIn data → shot.IsReadAs config data frame)
        (FrameSpec.shots config 0 (offset + 14) frames) results := by
  obtain ⟨hcount, -, hframes⟩ := hcontent
  have hdecode : AnimationHeader.decode header.encode = header := by
    have h : AnimationHeader.decode (header.encode ++ []) = header :=
      AnimationHeader.decode_encode hcount []
    rwa [List.append_nil] at h
  let started : Assembly :=
    { file.opened.entering [⟨.animation, offset, header.encode⟩] with animation := some header }
  have hstarted : (file.opened.add config ⟨.animation, offset, header.encode⟩).result =
      .ok started := by
    rw [Assembly.add_eq_ok_iff]
    refine ⟨_, Assembly.addAnimation_eq_ok_iff.mpr ⟨(has_opened_iff .canvas rfl).mpr (.inl rfl), ?_,
      AnimationHeader.length_encode _, rfl⟩, ?_⟩
    · rw [has_opened_iff .animation rfl]
      exact not_or.mpr ⟨nofun, fun h => nomatch h.2⟩
    · rw [hdecode]
      rfl
  have hanimation : started.Has .animation :=
    Assembly.has_entering_iff.mpr (.inr ⟨rfl, List.mem_singleton_self _⟩)
  obtain ⟨results, hfold, hresults⟩ := FrameSpec.foldlM_add config hcanvas hframes hlt started
    hanimation rfl (offset + 14)
  refine ⟨results, ?_, hresults⟩
  rw [FileContent.pieces, Piece.chunks, List.foldlM_cons, result_bind_eq_ok, Piece.length_bytes,
    AnimationHeader.length_encode]
  refine ⟨started, hstarted, hfold.trans ?_⟩
  let chunk : Chunk := ⟨.animation, offset, header.encode⟩
  let behind := Piece.chunks (offset + 14) (frames.map FrameSpec.piece)
  have hentering : (file.opened.entering [chunk]).entering behind =
      file.opened.entering (chunk :: behind) := (Assembly.entering_append [chunk] behind).symm
  exact congrArg
    (fun told : Assembly => Except.ok { told with animation := some header, frames := results })
    hentering

/-- The content is taken behind the chunks in front of it. -/
theorem exists_foldlM_add_content (hcanvas : file.canvas.IsStorable)
    (hcontent : file.content.IsValid file.canvas)
    (hlt : ∀ piece ∈ file.content.pieces, piece.payload.length < 2 ^ 32) (config : Config) :
    let offset := 12 + (Piece.write file.leading).length
    ∃ taken : Assembly,
      ((Piece.chunks offset file.content.pieces).foldlM (Assembly.add config)
        file.opened).result = .ok taken ∧
      taken.extended = some file.header ∧ taken.canvas = some file.canvas ∧
      taken.animation = file.content.animation? ∧
      taken.chunks =
        file.opened.chunks ++ (Piece.chunks offset file.content.pieces).map Chunk.entry ∧
      List.Forall₂ (fun shot frame => ∀ data, shot.StandsIn data → shot.IsReadAs config data frame)
        ((FileSpec.extended file).shots config) taken.frames := by
  intro offset
  rw [FileSpec.shots, FileSpec.content]
  cases hfile : file.content with
  | still picture =>
    rw [hfile] at hcontent
    obtain ⟨result, hfold, hresult⟩ := file.exists_foldlM_add_still hcontent config offset
    exact ⟨_, hfold, rfl, rfl, rfl, rfl, .cons hresult .nil⟩
  | animation header frames =>
    rw [hfile] at hcontent hlt
    have hframes : ∀ frame ∈ frames, frame.piece.payload.length < 2 ^ 32 := fun frame hframe =>
      hlt frame.piece (List.mem_cons_of_mem _ (List.mem_map_of_mem hframe))
    obtain ⟨results, hfold, hresults⟩ :=
      file.exists_foldlM_add_animation hcanvas hcontent hframes config offset
    exact ⟨_, hfold, rfl, rfl, rfl, rfl, hresults⟩

end ExtendedSpec

/-! ### Whole files -/

namespace FileSpec

variable {file : FileSpec} {config : Config} {assembly : Assembly}

/-- What is known of a file once all of its chunks have been taken. -/
structure IsTakenAs (config : Config) (file : FileSpec) (assembly : Assembly) : Prop where
  sees : assembly.SeesDirectory
  chunks_eq : assembly.chunks = (Piece.chunks 12 file.pieces).map Chunk.entry
  extended_eq : assembly.extended = match file with
    | image _ _ _ => none
    | extended file => some file.header
  canvas_eq : assembly.canvas = some file.canvas
  animation_eq : assembly.animation = file.content.animation?
  frames : List.Forall₂ (fun shot frame => ∀ data, shot.StandsIn data →
    shot.IsReadAs config data frame) (file.shots config) assembly.frames

/-- The chunks that were written have been taken. -/
theorem IsTakenAs.has_iff (h : file.IsTakenAs config assembly) (kind : ChunkKind)
    (hknown : kind.isKnown) : assembly.Has kind ↔ ∃ piece ∈ file.pieces, piece.kind = kind :=
  h.sees.has_iff_of_chunks_eq h.chunks_eq kind hknown

/-- A file of which all chunks have been taken is complete. -/
theorem IsTakenAs.check (h : file.IsTakenAs config assembly) (hvalid : file.IsValid) :
    assembly.check.result = .ok () := by
  have hlength : assembly.frames.length = (file.shots config).length := h.frames.length_eq.symm
  have hcontent := hvalid.content
  rw [Assembly.check_eq_ok_iff]
  refine ⟨?_, fun header hheader => ?_⟩
  · rw [← List.length_pos_iff, hlength, List.length_pos_iff, shots]
    cases hfile : file.content with
    | still picture => exact List.cons_ne_nil _ _
    | animation header frames =>
      rw [hfile] at hcontent
      cases frames with
      | nil => exact absurd rfl hcontent.2.1
      | cons frame frames => exact List.cons_ne_nil _ _
  · simp only [h.has_iff .animation rfl, h.has_iff .frame rfl, h.has_iff .exif rfl,
      h.has_iff .xmp rfl, h.has_iff .iccp rfl]
    cases file with
    | image canvas format payload => cases h.extended_eq.symm.trans hheader
    | extended file =>
      obtain rfl : file.header = header := Option.some.inj (h.extended_eq.symm.trans hheader)
      obtain ⟨hiccp, hexif, hxmp⟩ := file.exists_metadata_iff
      rw [hiccp, hexif, hxmp, hlength, shots]
      change (file.content.isAnimation → _) ∧ _ ∧ _ ∧ _ ∧ (file.content.isAnimation ∨ _)
      change file.content.IsValid file.canvas at hcontent
      simp only [ExtendedSpec.exists_piece_iff, content]
      cases hfile : file.content with
      | still picture => exact ⟨by rintro ⟨⟩, Iff.rfl, Iff.rfl, Iff.rfl, .inr (Nat.le_refl 1)⟩
      | animation header frames =>
        rw [hfile] at hcontent
        obtain ⟨frame, frames, rfl⟩ := List.exists_cons_of_ne_nil hcontent.2.1
        refine ⟨fun _ => ⟨?_, ?_⟩, Iff.rfl, Iff.rfl, Iff.rfl, .inl rfl⟩
        · exact .inr (.inr (.inl ⟨⟨.anim, header.encode⟩, List.mem_cons_self, rfl⟩))
        · exact .inr (.inr (.inl
            ⟨frame.piece, List.mem_cons_of_mem _ List.mem_cons_self, rfl⟩))

/-- The description of a file of which all chunks have been taken. -/
theorem IsTakenAs.isReadAs (h : file.IsTakenAs config assembly) :
    file.IsReadAs config (assembly.toHeader file.bytes.length) where
  canvas_eq := by
    rw [Assembly.toHeader, h.canvas_eq]
    rfl
  frames := by
    have hstands : ∀ shot ∈ file.shots config, shot.StandsIn file.bytes :=
      fun _ hshot => standsIn_of_mem_shots hshot
    exact ((List.forall₂_and_left _ _).mpr ⟨hstands, h.frames⟩).imp
      fun _ _ hboth => hboth.2 _ hboth.1
  features_eq := by
    have hflag {kind : ChunkKind} {b : Bool} (hknown : kind.isKnown)
        (hb : (∃ piece ∈ file.pieces, piece.kind = kind) ↔ b = true) :
        decide (assembly.Has kind) = b := by
      rw [Bool.eq_iff_iff, decide_eq_true_iff, h.has_iff kind hknown, hb]
    rw [Assembly.toHeader, Assembly.announces, Assembly.announces, h.extended_eq]
    cases file with
    | image canvas format payload =>
      have hnone {kind : ChunkKind} (hknown : kind.isKnown)
          (hkind : kind ∉ [ChunkKind.alpha, .lossy, .lossless, .animation, .frame]) :
          decide (assembly.Has kind) = false := hflag hknown <| iff_of_false
        ((FileContent.still (.plain format payload)).not_metadata hkind)
        Bool.false_ne_true
      rw [Features.mk.injEq]
      exact ⟨rfl, Bool.or_false _, hnone rfl (by decide), hnone rfl (by decide),
        hnone rfl (by decide)⟩
    | extended file =>
      obtain ⟨hiccp, hexif, hxmp⟩ := file.exists_metadata_iff
      rw [Features.mk.injEq]
      exact ⟨rfl, rfl, hflag rfl hexif, hflag rfl hiccp, hflag rfl hxmp⟩
  loopCount_eq := by
    rw [Assembly.toHeader, h.animation_eq]
    cases file.content <;> rfl
  background_eq := by
    rw [Assembly.toHeader, h.animation_eq]
  chunks_eq := h.chunks_eq
  fileLength_eq := rfl

/-- The only chunk of an image alone is taken. -/
theorem exists_foldlM_add_image {canvas : Size} {format : ImageFormat} {payload : Bytes}
    (h : (Picture.plain format payload).IsValid canvas) (config : Config) :
    ∃ assembly, ((Piece.chunks 12 (image canvas format payload).pieces).foldlM
      (Assembly.add config) {}).result = .ok assembly ∧
      (image canvas format payload).IsTakenAs config assembly := by
  obtain ⟨info, found, hfound, rfl⟩ := h.exists_found config 12
  have hplain : (Picture.plain format payload).alpha? = none := by cases format <;> rfl
  have hfold := Assembly.foldlM_add_still {} hfound (by decide) (by decide) (by decide)
    (fun h => by rw [hplain] at h; cases h) rfl rfl (fun _ h => nomatch h)
  exact ⟨_, hfold, Assembly.seesDirectory_nil.foldlM_add hfold, rfl, rfl, rfl, rfl,
    .cons (fun _ hdata => hfound.isReadAs hdata) .nil⟩

/-- The chunks of a file are taken one after another. -/
theorem IsValid.exists_foldlM_add (h : file.IsValid) (config : Config) :
    ∃ assembly, ((Piece.chunks 12 file.pieces).foldlM (Assembly.add config) {}).result =
      .ok assembly ∧ file.IsTakenAs config assembly := by
  have hlt : ∀ piece ∈ file.pieces, piece.payload.length < 2 ^ 32 := by
    have hle := h.length_le
    intro piece hpiece
    have := Piece.length_payload_le_write hpiece
    omega
  have hcontent := h.content
  cases file with
  | image canvas format payload => exact exists_foldlM_add_image hcontent config
  | extended file =>
    obtain ⟨taken, hfold, hextended, hcanvas, hanimation, hchunks, hframes⟩ :=
      file.exists_foldlM_add_content h.canvas hcontent (fun piece hpiece => hlt piece
        (List.mem_append_right _ (List.mem_append_left _ hpiece))) config
    have htrailing : ∀ piece ∈ file.trailing, piece.kind = .exif ∨ piece.kind = .xmp := by
      intro piece hpiece
      rcases List.mem_append.mp hpiece with hexif | hxmp
      · exact .inl (Piece.exists_mem_optional_iff.mp ⟨piece, hexif, rfl⟩).2.symm
      · exact .inr (Piece.exists_mem_optional_iff.mp ⟨piece, hxmp, rfl⟩).2.symm
    let behind := Piece.chunks
      (12 + (Piece.write file.leading).length + (Piece.write file.content.pieces).length)
      file.trailing
    have htail : (behind.foldlM (Assembly.add config) taken).result =
        .ok (taken.entering behind) :=
      Assembly.foldlM_add_metadata config htrailing taken _
    have hall : ((Piece.chunks 12 (FileSpec.extended file).pieces).foldlM (Assembly.add config)
        {}).result = .ok (taken.entering behind) := by
      rw [pieces, Piece.chunks_append, Piece.chunks_append, List.foldlM_append, result_bind_eq_ok]
      refine ⟨_, file.foldlM_add_leading h.canvas config, ?_⟩
      rw [List.foldlM_append, result_bind_eq_ok]
      exact ⟨taken, hfold, htail⟩
    refine ⟨taken.entering behind, hall, Assembly.seesDirectory_nil.foldlM_add hall, ?_, hextended,
      hcanvas, hanimation, hframes⟩
    rw [pieces, Piece.chunks_append, Piece.chunks_append, List.map_append, List.map_append,
      ← List.append_assoc]
    exact congrArg (· ++ behind.map Chunk.entry) hchunks

/-- **Reading what was written.** A file that was written from its description is accepted under
all settings, and its header gives the description back. -/
theorem exists_parse_bytes (h : file.IsValid) (config : Config) :
    ∃ header, (parse config file.bytes).result = .ok header ∧ file.IsReadAs config header := by
  obtain ⟨assembly, hfold, htaken⟩ := h.exists_foldlM_add config
  have hle := h.length_le
  have hge : 8 ≤ (Piece.write file.pieces).length := by
    obtain ⟨piece, pieces, hpieces⟩ := file.exists_pieces_eq_cons
    rw [hpieces, Piece.write_cons, List.length_append, Piece.length_bytes]
    omega
  obtain ⟨hframed, hlength, hslice⟩ := isFramed_encode hge hle
  have hlt : ∀ piece ∈ file.pieces, piece.payload.length < 2 ^ 32 := by
    intro piece hpiece
    have := Piece.length_payload_le_write hpiece
    omega
  refine ⟨assembly.toHeader file.bytes.length, ?_, htaken.isReadAs⟩
  rw [result_parse, FileHeader.read_eq_ok_iff]
  refine ⟨hframed, _, ?_, assembly, hfold, htaken.check h, ?_⟩
  · rw [bytes, hslice]
    exact Piece.tiles_chunks 12 hlt
  · rw [bytes, hlength]

/-- An animation of two frames, one with an alpha plane, with a colour profile and metadata. Some
payloads have odd lengths. -/
def twoFrames : FileSpec := .extended
  { canvas := ⟨3, 1⟩
    alpha := true
    profile := some [1, 2, 3]
    content := .animation ⟨0xff102030, 5⟩
      [{ rect := ⟨0, 0, 1, 1⟩, duration := 10, dispose := .keep, blend := .over
         picture := .lossless [0x2f, 0, 0, 0, 0, 0] },
        { rect := ⟨2, 0, 1, 1⟩, duration := 40, dispose := .background, blend := .replace
          picture := .lossy (some [0]) [0x10, 0, 0, 0x9d, 1, 0x2a, 1, 0, 1, 0, 0] }]
    exif := none
    xmp := some [4, 5] }

theorem isValid_twoFrames : twoFrames.IsValid where
  canvas := by constructor <;> decide
  content := by
    refine ⟨by decide, List.cons_ne_nil _ _,
      List.forall_mem_cons.mpr ⟨?_, List.forall_mem_singleton.mpr ?_⟩⟩
    · exact ⟨rfl, rfl, by decide, by decide,
        ImageFormat.accepts_of_toOption (by decide +kernel), nofun⟩
    · refine ⟨rfl, rfl, by decide, by decide,
        ImageFormat.accepts_of_toOption (by decide +kernel), ?_⟩
      rintro plane ⟨⟩
      exact AlphaInfo.accepts_of_toOption (by decide +kernel)
  length_le := by decide +kernel

/-- The animation is read back. -/
theorem exists_parse_bytes_twoFrames :
    twoFrames.IsValid ∧ ∃ header, (parse {} twoFrames.bytes).result = .ok header ∧
      twoFrames.IsReadAs {} header :=
  ⟨isValid_twoFrames, exists_parse_bytes isValid_twoFrames {}⟩

end FileSpec

end WebP
