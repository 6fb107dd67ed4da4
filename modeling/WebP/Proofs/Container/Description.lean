import WebP.Proofs.Container.Placement

/-!
# What a description says

Every fact in the description of an accepted file comes from a chunk of the file or from the frames
that chunks brought. The chunks are all that stand between the header of the file and its declared
end. The canvas and the announced features are those of the extended header, and without one the
canvas is as large as the only image. The background and the loop count are those of the animation
header.

The headers come at most once, so a reader may keep the last that it has seen. That what it keeps is
the one header of the file is carried along chunk by chunk, and so is the size of a canvas that
nothing announced.

## Main definitions

* `WebP.ToldBy`: a value that is told by the only chunk of a kind.
* `WebP.Assembly.Keeps`: what a reader keeps of the chunks so far.
* `WebP.FileHeader.IsToldBy`: a description and the chunks that it was made from.

## Main results

* `WebP.Assembly.keeps_of_foldlM`: what is kept of the headers at the end.
* `WebP.exists_isToldBy_of_parse`: the description of an accepted file.
-/

namespace WebP

open Outcome

/-! ### What is kept of the headers -/

/-- The value is what the payload of a chunk of the kind tells, whichever it is, and nothing if
there is no such chunk. -/
structure ToldBy {α : Type} (kind : ChunkKind) (decode : Bytes → α) (chunks : List Chunk)
    (told : Option α) : Prop where
  some : ∀ chunk ∈ chunks, chunk.kind = kind → told = some (decode chunk.payload)
  none : kind ∉ chunks.map Chunk.kind → told = none

namespace ToldBy

variable {α : Type} {kind : ChunkKind} {decode : Bytes → α} {chunks : List Chunk} {chunk : Chunk}
  {told : Option α}

theorem nil (kind : ChunkKind) (decode : Bytes → α) : ToldBy kind decode [] .none :=
  ⟨fun _ h => absurd h List.not_mem_nil, fun _ => rfl⟩

/-- A chunk of another kind tells nothing. -/
theorem concat_of_ne (h : ToldBy kind decode chunks told) (hkind : chunk.kind ≠ kind) :
    ToldBy kind decode (chunks ++ [chunk]) told where
  some found hfound hfoundKind := by
    rcases List.mem_append.mp hfound with hmem | hlast
    · exact h.some found hmem hfoundKind
    · obtain rfl := List.mem_singleton.mp hlast
      exact absurd hfoundKind hkind
  none hnone := h.none fun hmem => hnone (by
    rw [List.map_append]
    exact List.mem_append_left _ hmem)

/-- The first chunk of the kind tells the value. -/
theorem concat_of_first (hfirst : kind ∉ chunks.map Chunk.kind) (hkind : chunk.kind = kind) :
    ToldBy kind decode (chunks ++ [chunk]) (.some (decode chunk.payload)) where
  some found hfound hfoundKind := by
    rcases List.mem_append.mp hfound with hmem | hlast
    · exact absurd (hfoundKind ▸ List.mem_map_of_mem hmem) hfirst
    · rw [List.mem_singleton.mp hlast]
  none hnone := by
    rw [List.map_append, List.map_singleton, hkind] at hnone
    exact absurd (List.mem_append_right _ (List.mem_singleton_self kind)) hnone

end ToldBy

namespace Assembly

variable {config : Config} {file next told : Assembly} {chunks : List Chunk} {chunk : Chunk}

/-- What a reader keeps of the headers among the chunks so far, and of the size of an image where
no header announced a canvas. -/
structure Keeps (chunks : List Chunk) (file : Assembly) : Prop where
  extended : ToldBy .canvas CanvasHeader.decode chunks file.extended
  animation : ToldBy .animation AnimationHeader.decode chunks file.animation
  canvas : file.extended = none → ∀ frame ∈ file.frames, file.canvas = some frame.image.size

theorem keeps_nil : Keeps [] {} :=
  ⟨.nil .., .nil .., fun _ _ h => absurd h List.not_mem_nil⟩

namespace Keeps

/-- A chunk that is no header and leaves canvas and frames as they are. -/
theorem concat_of_same (hk : Keeps chunks file) (hcanvas : chunk.kind ≠ .canvas)
    (hanimation : chunk.kind ≠ .animation) (hextended : told.extended = file.extended)
    (hheader : told.animation = file.animation) (hsize : told.canvas = file.canvas)
    (hframes : told.frames = file.frames) : Keeps (chunks ++ [chunk]) told where
  extended := hextended ▸ hk.extended.concat_of_ne hcanvas
  animation := hheader ▸ hk.animation.concat_of_ne hanimation
  canvas := by
    rw [hextended, hsize, hframes]
    exact hk.canvas

theorem addImage (hk : Keeps chunks file) (hd : Describes chunks file) (format : ImageFormat)
    (hkind : chunk.kind = format.kind)
    (h : (file.addImage config format chunk).result = .ok told) :
    Keeps (chunks ++ [chunk]) told := by
  obtain ⟨himage, hanimation, -, info, -, -, rfl⟩ := addImage_eq_ok_iff.mp h
  have hne {kind : ChunkKind} (hother : (format.kind == kind) = false) : chunk.kind ≠ kind :=
    hkind ▸ ne_of_beq_false hother
  refine ⟨hk.extended.concat_of_ne (hne (by cases format <;> rfl)),
    hk.animation.concat_of_ne (hne (by cases format <;> rfl)), fun hnone frame hframe => ?_⟩
  -- nothing else has brought a frame, so the frame is that of the image
  change file.extended = none at hnone
  change frame ∈ file.frames ++ [file.stillFrame chunk info] at hframe
  rw [hd.frames_eq_nil_of_still himage hanimation, List.nil_append, List.mem_singleton] at hframe
  change (if file.extended.isSome then file.canvas else some info.size) = _
  rw [hnone, hframe]
  rfl

theorem interpret (hk : Keeps chunks file) (hg : ChunkGrammar chunks) (hd : Describes chunks file)
    (h : (file.interpret config chunk).result = .ok told) : Keeps (chunks ++ [chunk]) told := by
  rw [Assembly.interpret] at h
  have hne {kind other : ChunkKind} (hkind : chunk.kind = kind) (hother : (kind == other) = false) :
      chunk.kind ≠ other := hkind ▸ ne_of_beq_false hother
  cases hkind : chunk.kind with
  | canvas =>
    rw [hkind] at h
    obtain ⟨hfirst, -, -, rfl⟩ := addCanvas_eq_ok_iff.mp h
    rw [hd.has_iff .canvas rfl] at hfirst
    exact ⟨.concat_of_first hfirst hkind, hk.animation.concat_of_ne (hne hkind rfl),
      fun hnone => absurd hnone (Option.some_ne_none _)⟩
  | animation =>
    rw [hkind] at h
    obtain ⟨-, hfirst, -, rfl⟩ := addAnimation_eq_ok_iff.mp h
    rw [hd.has_iff .animation rfl] at hfirst
    exact ⟨hk.extended.concat_of_ne (hne hkind rfl), .concat_of_first hfirst hkind, hk.canvas⟩
  | frame =>
    rw [hkind] at h
    obtain ⟨hanimation, -, -, -, -, -, -, -, frame, -, rfl⟩ := addFrame_eq_ok_iff.mp h
    refine ⟨hk.extended.concat_of_ne (hne hkind rfl),
      hk.animation.concat_of_ne (hne hkind rfl), fun hnone => ?_⟩
    -- a frame comes behind an animation header, which comes behind an extended one
    change file.extended = none at hnone
    rw [hd.extended_eq, extended?_eq_none_iff] at hnone
    exact absurd (hg.layout.animation_extended.mem
      ((hd.has_iff .animation rfl).mp hanimation)) hnone
  | lossy =>
    rw [hkind] at h
    exact hk.addImage hd .lossy hkind h
  | lossless =>
    rw [hkind] at h
    exact hk.addImage hd .lossless hkind h
  | alpha =>
    rw [hkind] at h
    obtain ⟨-, -, -, -, info, -, rfl⟩ := addAlpha_eq_ok_iff.mp h
    exact hk.concat_of_same (hne hkind rfl) (hne hkind rfl) rfl rfl rfl rfl
  | iccp =>
    rw [hkind] at h
    obtain ⟨-, -, -, rfl⟩ := addProfile_eq_ok_iff.mp h
    exact hk.concat_of_same (hne hkind rfl) (hne hkind rfl) rfl rfl rfl rfl
  | exif | xmp | unknown _ =>
    rw [hkind] at h
    cases h
    exact hk.concat_of_same (hne hkind rfl) (hne hkind rfl) rfl rfl rfl rfl

/-- What is kept stays true one chunk later. -/
theorem add (hk : Keeps chunks file) (hg : ChunkGrammar chunks) (hd : Describes chunks file)
    (h : (file.add config chunk).result = .ok next) : Keeps (chunks ++ [chunk]) next := by
  obtain ⟨told, htold, rfl⟩ := add_eq_ok_iff.mp h
  have hkept := hk.interpret hg hd htold
  exact ⟨hkept.extended, hkept.animation, hkept.canvas⟩

end Keeps

/-- What is kept of all chunks of a file. -/
theorem keeps_of_foldlM (hlt : ∀ chunk ∈ chunks, chunk.payload.length < 2 ^ 32)
    (h : (chunks.foldlM (Assembly.add config) {}).result = .ok file) : Keeps chunks file := by
  refine foldlM_concat_induction keeps_nil ?_ h
  rintro front chunk back state next rfl hstate hk hnext
  obtain ⟨htaken, hdescribes⟩ := foldlM_add config front (List.forall_mem_append.mp hlt).1
  exact hk.add (htaken.mp ⟨state, hstate⟩) (hdescribes state hstate) hnext

end Assembly

/-! ### Alpha -/

/-- The frame has an alpha plane or a lossless image that uses alpha. -/
def Frame.HasAlphaIn (data : Bytes) (frame : Frame) : Prop :=
  frame.alphaPayload.isSome ∨
    frame.image.format = .lossless ∧ (data.slice frame.payload).alphaBit

theorem Frame.Reads.hasAlpha_iff {config : Config} {data : Bytes} {frame : Frame}
    (h : frame.Reads config data) : frame.hasAlpha ↔ frame.HasAlphaIn data := by
  rw [Frame.hasAlpha, Bool.or_eq_true, h.alpha_iff, or_comm, HasAlphaIn]
  refine or_congr_right ?_
  have hread := h.inspected
  cases hformat : frame.image.format with
  | lossy =>
    rw [hformat] at hread
    obtain ⟨header, -, himage⟩ := ImageInfo.inspect_lossy_eq_ok_iff.mp hread
    rw [himage]
    simp
  | lossless =>
    rw [hformat] at hread
    obtain ⟨header, hheader, himage⟩ := ImageInfo.inspect_lossless_eq_ok_iff.mp hread
    rw [himage, and_iff_right rfl, ← LosslessHeader.alphaIsUsed_of_read hheader]

/-! ### The whole description -/

/-- The description of the file that has these chunks. -/
structure FileHeader.IsToldBy (config : Config) (data : Bytes) (chunks : List Chunk)
    (header : FileHeader) : Prop where
  fileLength_eq : header.fileLength = data.declaredLength + 8
  /-- The chunks are all that stands between the header of the file and its end. -/
  tiles : Tiles 12 (data.slice ⟨12, header.fileLength⟩) chunks
  chunks_eq : header.chunks = chunks.map Chunk.entry
  fill : Fill 12 header.fileLength header.chunks
  canvas_once : (header.chunks.map ChunkEntry.kind).count .canvas ≤ 1
  /-- The canvas is that of the extended header. -/
  canvas_extended : ∀ chunk ∈ chunks, chunk.kind = .canvas →
    header.canvas = (CanvasHeader.decode chunk.payload).canvas
  /-- Without one, the canvas is as large as the only image. -/
  canvas_still : (∀ entry ∈ header.chunks, entry.kind ≠ .canvas) → ∃ chunk ∈ chunks, ∃ frame,
    header.frames = [frame] ∧ chunk.kind = frame.image.format.kind ∧
      frame.payload = chunk.payloadSpan ∧
      (ImageInfo.inspect config frame.image.format chunk.payload).result = .ok frame.image ∧
      header.canvas = frame.image.size
  animation_iff : header.features.animation ↔
    ∃ chunk ∈ chunks, chunk.kind = .canvas ∧ (CanvasHeader.decode chunk.payload).flags.animated
  exif_iff : header.features.exif ↔ ∃ entry ∈ header.chunks, entry.kind = .exif
  iccp_iff : header.features.iccp ↔ ∃ entry ∈ header.chunks, entry.kind = .iccp
  xmp_iff : header.features.xmp ↔ ∃ entry ∈ header.chunks, entry.kind = .xmp
  alpha_iff : header.features.alpha ↔
    (∃ chunk ∈ chunks, chunk.kind = .canvas ∧ (CanvasHeader.decode chunk.payload).flags.alpha) ∨
      ∃ frame ∈ header.frames, frame.HasAlphaIn data
  animation_once : (header.chunks.map ChunkEntry.kind).count .animation ≤ 1
  /-- The background and the loop count are those of the animation header. -/
  playback : ∀ chunk ∈ chunks, chunk.kind = .animation →
    header.background = some (AnimationHeader.decode chunk.payload).background ∧
      header.loopCount = .ofHeader (AnimationHeader.decode chunk.payload).loopCount
  playback_none : (∀ entry ∈ header.chunks, entry.kind ≠ .animation) →
    header.background = none ∧ header.loopCount = .notSpecified
  frameCount_eq : ¬ header.features.animation → header.frameCount = 1

/-- A file that announces no animation has one chunk that brings a frame. -/
theorem FileGrammar.countP_bringsFrame {chunks : List Chunk} (h : FileGrammar chunks)
    (hstill : ∀ header, extended? chunks = some header → ¬ header.flags.animated) :
    (chunks.map Chunk.kind).countP ChunkKind.bringsFrame = 1 := by
  have hpos : 0 < (chunks.map Chunk.kind).countP ChunkKind.bringsFrame := by
    obtain ⟨chunk, hmem, hbrings⟩ := h.framed
    exact List.countP_pos_iff.mpr ⟨_, List.mem_map_of_mem hmem, hbrings⟩
  refine Nat.le_antisymm ?_ hpos
  cases hextended : extended? chunks with
  | some header =>
    exact (h.announced header hextended).single.resolve_left (hstill header hextended)
  | none =>
    -- without an extended header there is no animation, so images alone bring frames
    rw [extended?_eq_none_iff] at hextended
    have hframe : .frame ∉ chunks.map Chunk.kind := fun hmem =>
      hextended (h.layout.animation_extended.mem (h.layout.frame_animated.mem hmem))
    refine Nat.le_trans (List.countP_mono_left fun kind hkind hbrings => ?_) h.layout.image_once
    exact ((Bool.or_eq_true _ _).mp hbrings).resolve_right fun hbeq =>
      hframe (eq_of_beq hbeq ▸ hkind)

namespace Assembly

variable {config : Config} {file : Assembly} {chunks : List Chunk}

/-- A flag is announced if the extended header sets it. -/
theorem Keeps.announces_iff (hk : Keeps chunks file) (flag : CanvasFlag) :
    file.announces flag ↔ ∃ chunk ∈ chunks, chunk.kind = .canvas ∧
      (CanvasHeader.decode chunk.payload).flags.has flag := by
  rw [announces]
  by_cases hcanvas : .canvas ∈ chunks.map Chunk.kind
  · obtain ⟨chunk, hmem, hkind⟩ := List.mem_map.mp hcanvas
    rw [hk.extended.some chunk hmem hkind]
    refine ⟨fun hset => ⟨chunk, hmem, hkind, hset⟩, ?_⟩
    rintro ⟨other, hother, hotherKind, hset⟩
    have hsame := (hk.extended.some chunk hmem hkind).symm.trans
      (hk.extended.some other hother hotherKind)
    rwa [hsame]
  · rw [hk.extended.none hcanvas]
    refine iff_of_false Bool.false_ne_true ?_
    rintro ⟨chunk, hmem, hkind, -⟩
    exact hcanvas (hkind ▸ List.mem_map_of_mem hmem)

/-- Without an extended header the canvas is as large as the only image. -/
theorem Keeps.canvas_of_still (hk : Keeps chunks file) (hd : Describes chunks file)
    (ht : Traces config chunks file) (hg : FileGrammar chunks)
    (hcanvas : .canvas ∉ chunks.map Chunk.kind) : ∃ chunk ∈ chunks, ∃ frame,
      file.frames = [frame] ∧ chunk.kind = frame.image.format.kind ∧
        frame.payload = chunk.payloadSpan ∧
        (ImageInfo.inspect config frame.image.format chunk.payload).result = .ok frame.image ∧
        file.canvas = some frame.image.size := by
  have hnone : extended? chunks = none := extended?_eq_none_iff.mpr hcanvas
  have hlength : file.frames.length = 1 := by
    rw [hd.length_frames, hg.countP_bringsFrame fun _ hheader => nomatch hnone.symm.trans hheader]
  obtain ⟨frame, hframes⟩ := List.length_eq_one_iff.mp hlength
  obtain ⟨chunk, hchunk, hbrought⟩ :=
    exists_getElem?_of_forall₂ ht.frames (congrArg (·[0]?) hframes)
  have hmem := (mem_of_filter_getElem? hchunk).1
  cases hbrought with
  | still _ _ _ shows =>
    obtain ⟨plane, -, -, front, found, back, rfl, hpicture⟩ := shows
    refine ⟨found, List.mem_append_right _ (List.mem_cons_self ..), frame, hframes,
      hpicture.kind_eq, hpicture.span_eq, hpicture.inspected, ?_⟩
    refine hk.canvas (hd.extended_eq.trans hnone) frame ?_
    rw [hframes]
    exact List.mem_singleton_self frame
  | animated isFrame =>
    -- a frame of an animation stands behind an extended header
    have hanimation := hg.layout.frame_animated.mem (isFrame ▸ List.mem_map_of_mem hmem)
    exact absurd (hg.layout.animation_extended.mem hanimation) hcanvas

end Assembly

/-! ### Accepted files -/

/-- **What a description says.** Every fact in the description of an accepted file is told by the
chunks of the file. -/
theorem exists_isToldBy_of_parse {config : Config} {data : Bytes} {header : FileHeader}
    (h : (parse config data).result = .ok header) :
    ∃ chunks, header.IsToldBy config data chunks := by
  have hplaced {frame : Frame} (hframe : frame ∈ header.frames) : frame.Reads config data := by
    obtain ⟨i, hi⟩ := List.mem_iff_getElem?.mp hframe
    exact (isPlaced_of_parse h hi).toReads
  obtain ⟨hframed, chunks, file, htiles, hfold, hg, hd, rfl⟩ := assembly_of_parse h
  have hlt : ∀ chunk ∈ chunks, chunk.payload.length < 2 ^ 32 := fun _ => htiles.length_lt
  have hk := Assembly.keeps_of_foldlM hlt hfold
  have ht := Assembly.traces_of_foldlM hlt hfold
  have hkinds := hd.kinds_eq
  have hnot {kind : ChunkKind} (hnone : ∀ entry ∈ file.chunks, entry.kind ≠ kind) :
      kind ∉ chunks.map Chunk.kind := by
    rw [← hkinds]
    exact fun hmem => by
      obtain ⟨entry, hentry, hkind⟩ := List.mem_map.mp hmem
      exact hnone entry hentry hkind
  refine ⟨chunks, ?_⟩
  constructor
  case fileLength_eq => rfl
  case tiles => exact htiles
  case chunks_eq => exact hd.chunks_eq
  case fill =>
    have hfill := htiles.fill
    rw [← hd.chunks_eq, Bytes.length_slice_of_le hframed.complete] at hfill
    have hge := hframed.declared_ge
    have hstop : 12 + (data.declaredLength + 8 - 12) = data.declaredLength + 8 := by omega
    rwa [hstop] at hfill
  case canvas_once => exact hkinds ▸ hg.layout.canvas_once
  case canvas_extended =>
    intro chunk hmem hkind
    change file.canvas.getD ⟨1, 1⟩ = _
    rw [hd.canvas_eq _ (hk.extended.some chunk hmem hkind), Option.getD_some]
  case canvas_still =>
    intro hnone
    obtain ⟨chunk, hmem, frame, hframes, hkind, hspan, hread, hcanvas⟩ :=
      hk.canvas_of_still hd ht hg (hnot hnone)
    refine ⟨chunk, hmem, frame, hframes, hkind, hspan, hread, ?_⟩
    change file.canvas.getD ⟨1, 1⟩ = _
    rw [hcanvas, Option.getD_some]
  case animation_iff => exact hk.announces_iff .animated
  case exif_iff => exact decide_eq_true_iff.trans (hd.sees.has_iff rfl)
  case iccp_iff => exact decide_eq_true_iff.trans (hd.sees.has_iff rfl)
  case xmp_iff => exact decide_eq_true_iff.trans (hd.sees.has_iff rfl)
  case alpha_iff =>
    change (file.hasAlpha || file.announces .alpha) = true ↔ _
    rw [Bool.or_eq_true, or_comm, hk.announces_iff .alpha, Assembly.hasAlpha, List.any_eq_true]
    refine or_congr_right (exists_congr fun frame => and_congr_right fun hframe => ?_)
    exact (hplaced hframe).hasAlpha_iff
  case animation_once => exact hkinds ▸ hg.layout.animation_once
  case playback =>
    intro chunk hmem hkind
    have htold := hk.animation.some chunk hmem hkind
    simp only [Assembly.toHeader, htold, Option.map_some, and_self]
  case playback_none =>
    intro hnone
    have htold := hk.animation.none (hnot hnone)
    simp only [Assembly.toHeader, htold, Option.map_none, and_self]
  case frameCount_eq =>
    intro hstill
    refine hd.length_frames.trans (hg.countP_bringsFrame fun header hheader hset => hstill ?_)
    change file.announces .animated
    rw [Assembly.announces, hd.extended_eq, hheader]
    exact hset

/-- In the animation of two frames, the description tells of four chunks, of the alpha plane that
the first frame has, and of an animation that is repeated for ever. -/
theorem exists_isToldBy_of_parse_alphaAnimation :
    ∃ header, (parse {} alphaAnimation).result = .ok header ∧
      (∃ chunks, header.IsToldBy {} alphaAnimation chunks) ∧
      header.chunks.map ChunkEntry.offset = [12, 30, 44, 98] ∧ header.fileLength = 136 ∧
      header.features = { animation := true, alpha := true } ∧ header.loopCount = .forever := by
  have hread : ((parse {} alphaAnimation).result.toOption.map fun header =>
      (header.chunks.map ChunkEntry.offset, header.fileLength, header.features,
        header.loopCount)) =
      some ([12, 30, 44, 98], 136, { animation := true, alpha := true }, .forever) := by
    decide +kernel
  obtain ⟨header, hheader, hvalues⟩ := Option.map_eq_some_iff.mp hread
  rw [toOption_result_eq_some_iff] at hheader
  simp only [Prod.mk.injEq] at hvalues
  exact ⟨header, hheader, exists_isToldBy_of_parse hheader, hvalues⟩

end WebP
