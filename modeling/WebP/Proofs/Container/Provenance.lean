import WebP.Proofs.Container.Acceptance

/-!
# What a frame keeps of its chunks

A frame keeps what the headers of its image said, what those of its alpha plane said, and where
both lie. Each of these comes from one chunk: the image from an image chunk, the alpha plane from
a chunk in front of it. For a still image both are chunks of the file, for a frame of an animation
both are chunks inside the frame chunk. This is kept along chunk by chunk, beside what is known of
the file anyway.

## Main definitions

* `WebP.PlaneAmong`: an alpha plane that was found among given chunks.
* `WebP.PictureAmong`: an image that was found among given chunks, with an alpha plane in front.
* `WebP.Frame.IsBroughtBy`: a frame, the chunk that brought it, and where the frame has each of
  its data from.
* `WebP.Assembly.Traces`: every frame so far is brought by its chunk.

## Main results

* `WebP.FrameContent.traces_of_read`: what is kept of the chunks inside a frame.
* `WebP.Assembly.Traces.add`: one more chunk of the file.
* `WebP.traces_of_parse`: what is kept of an accepted file.
-/

namespace WebP

open Outcome

/-- What is true at the start and stays true with each step is true of all that was taken. In front
of a step, what was taken so far has been taken without a fault. -/
theorem Outcome.foldlM_concat_induction {ε σ α : Type} {step : σ → α → Outcome ε σ} {start : σ}
    {Holds : List α → σ → Prop} {items : List α} (hnil : Holds [] start)
    (hstep : ∀ front item back state next, items = front ++ item :: back →
      (front.foldlM step start).result = .ok state → Holds front state →
      (step state item).result = .ok next → Holds (front ++ [item]) next)
    {last : σ} (h : (items.foldlM step start).result = .ok last) : Holds items last := by
  induction items using List.reverseRecOn generalizing last with
  | nil =>
    cases h
    exact hnil
  | append_singleton items item ih =>
    obtain ⟨state, hstate, hnext⟩ := foldlM_concat_eq_ok_iff.mp h
    refine hstep items item [] state last rfl hstate (ih ?_ hstate) hnext
    intro front found back middle next hitems
    exact hstep front found (back ++ [item]) middle next (by rw [hitems]; simp)

/-- The alpha plane, if there is one, is that of a chunk among `chunks`. -/
def PlaneAmong (chunks : List Chunk) (plane : Option (AlphaInfo × Span)) : Prop :=
  ∀ info span, plane = some (info, span) → ∃ chunk ∈ chunks, chunk.kind = .alpha ∧
    (AlphaInfo.inspect chunk.payload).result = .ok info ∧ span = chunk.payloadSpan

/-- The image is that of `chunk`, and the alpha plane is one of the chunks `front`. Only a lossy
image has an alpha plane. -/
structure PictureAt (config : Config) (front : List Chunk) (chunk : Chunk) (image : ImageInfo)
    (span : Span) (plane : Option (AlphaInfo × Span)) : Prop where
  kind_eq : chunk.kind = image.format.kind
  inspected : (ImageInfo.inspect config image.format chunk.payload).result = .ok image
  span_eq : span = chunk.payloadSpan
  plane_among : PlaneAmong front plane
  lossy : plane.isSome → image.format = .lossy

/-- The image is that of a chunk among `chunks`, and the alpha plane stands in front of it. -/
def PictureAmong (config : Config) (chunks : List Chunk) (image : ImageInfo) (span : Span)
    (plane : Option (AlphaInfo × Span)) : Prop :=
  ∃ front chunk back, chunks = front ++ chunk :: back ∧
    PictureAt config front chunk image span plane

/-- The image and the alpha plane of the frame are those of chunks among `chunks`. -/
def Frame.Shows (config : Config) (chunks : List Chunk) (frame : Frame) : Prop :=
  ∃ plane : Option (AlphaInfo × Span), frame.alpha = plane.map (·.1) ∧
    frame.alphaPayload = plane.map (·.2) ∧
    PictureAmong config chunks frame.image frame.payload plane

/-- The frame was brought by a chunk of the file that has the chunks `chunks`. -/
inductive Frame.IsBroughtBy (config : Config) (chunks : List Chunk) (chunk : Chunk)
    (frame : Frame) : Prop
  /-- A still image covers its canvas and is not timed. -/
  | still (isImage : chunk.kind.isImage) (rect_eq : frame.rect = .ofSize frame.image.size)
      (duration_eq : frame.duration = 0) (shows : frame.Shows config chunks)
  /-- The rectangle and the duration stand in the header of the frame, the image behind it. -/
  | animated (isFrame : chunk.kind = .frame)
      (long : FrameHeader.encodedLength ≤ chunk.payload.length)
      (rect_eq : frame.rect = (FrameHeader.decode chunk.payload).rect)
      (duration_eq : frame.duration =
        Assembly.frameDuration config (FrameHeader.decode chunk.payload).duration)
      (parts : List Chunk)
      (tiles : Tiles (chunk.offset + 24) (chunk.payload.drop FrameHeader.encodedLength) parts)
      (shows : frame.Shows config parts)

section Mono

variable {config : Config} {chunks : List Chunk} {chunk : Chunk} {image : ImageInfo} {span : Span}
  {plane : Option (AlphaInfo × Span)} {frame : Frame}

theorem planeAmong_none (chunks : List Chunk) : PlaneAmong chunks none :=
  fun _ _ h => nomatch h

theorem PlaneAmong.concat (h : PlaneAmong chunks plane) (chunk : Chunk) :
    PlaneAmong (chunks ++ [chunk]) plane := by
  intro info span hplane
  obtain ⟨found, hmem, hfound⟩ := h info span hplane
  exact ⟨found, List.mem_append_left _ hmem, hfound⟩

theorem PictureAmong.concat (h : PictureAmong config chunks image span plane) (chunk : Chunk) :
    PictureAmong config (chunks ++ [chunk]) image span plane := by
  obtain ⟨front, found, back, rfl, hpicture⟩ := h
  exact ⟨front, found, back ++ [chunk], by rw [List.append_assoc, List.cons_append], hpicture⟩

theorem PictureAt.among (h : PictureAt config chunks chunk image span plane) :
    PictureAmong config (chunks ++ [chunk]) image span plane :=
  ⟨chunks, chunk, [], rfl, h⟩

/-- More chunks of the file do not change what brought a frame. -/
theorem Frame.IsBroughtBy.concat (h : frame.IsBroughtBy config chunks chunk) (last : Chunk) :
    frame.IsBroughtBy config (chunks ++ [last]) chunk := by
  cases h with
  | still isImage rect_eq duration_eq shows =>
    obtain ⟨plane, halpha, hspan, hpicture⟩ := shows
    exact .still isImage rect_eq duration_eq ⟨plane, halpha, hspan, hpicture.concat last⟩
  | animated isFrame long rect_eq duration_eq parts tiles shows =>
    exact .animated isFrame long rect_eq duration_eq parts tiles shows

end Mono

/-! ### Inside a frame -/

namespace FrameContent

variable {config : Config} {size : Size} {content next : FrameContent} {parts : List Chunk}
  {part : Chunk}

/-- The image, if it has been found, is that of one of the chunks `parts`, with the alpha plane in
front of it. -/
def Traces (config : Config) (parts : List Chunk) (content : FrameContent) : Prop :=
  ∀ image span, content.image = some (image, span) →
    PictureAmong config parts image span content.alpha

theorem Traces.addImage (hd : Describes config parts content) (format : ImageFormat)
    (hkind : part.kind = format.kind)
    (h : (content.addImage config size format part).result = .ok next) :
    Traces config (parts ++ [part]) next := by
  obtain ⟨-, hlossless, info, hinfo, -, rfl⟩ := addImage_eq_ok_iff.mp h
  obtain rfl := ImageInfo.format_of_inspect hinfo
  rintro _ _ ⟨⟩
  refine PictureAt.among ⟨hkind, hinfo, rfl, hd.alpha_eq_some, fun halpha => ?_⟩
  cases hformat : info.format with
  | lossy => rfl
  | lossless =>
    change content.alpha.isSome at halpha
    rw [hlossless hformat] at halpha
    cases halpha

theorem Traces.add (hd : Describes config parts content) (ht : Traces config parts content)
    (h : (content.add config size part).result = .ok next) :
    Traces config (parts ++ [part]) next := by
  cases hkind : part.kind with
  | alpha =>
    rw [add_of_alpha hkind] at h
    obtain ⟨-, himage, info, -, rfl⟩ := addAlpha_eq_ok_iff.mp h
    intro image span hfound
    cases himage.symm.trans hfound
  | lossy =>
    have hformat : part.kind = ImageFormat.lossy.kind := hkind
    rw [add_of_image hformat] at h
    exact Traces.addImage hd .lossy hformat h
  | lossless =>
    have hformat : part.kind = ImageFormat.lossless.kind := hkind
    rw [add_of_image hformat] at h
    exact Traces.addImage hd .lossless hformat h
  | unknown name =>
    rw [FrameContent.add, hkind] at h
    cases h
    exact fun image span hfound => (ht image span hfound).concat part
  | animation | frame | exif | iccp | canvas | xmp =>
    rw [FrameContent.add, hkind] at h
    cases h

theorem traces_of_foldlM (h : (parts.foldlM (FrameContent.add config size) {}).result =
    .ok content) : Traces config parts content := by
  refine foldlM_concat_induction (fun _ _ hnone => nomatch hnone) ?_ h
  intro front part _ state next _ hstate ht hnext
  exact ht.add ((foldlM_add config size front).2 state hstate) hnext

/-- **What a frame keeps of the chunks inside it.** -/
theorem traces_of_read {place : Placement} {duration : Nat} {frame : Frame} {chunk : Chunk}
    (hlt : chunk.payload.length < 2 ^ 32)
    (hlong : FrameHeader.encodedLength ≤ chunk.payload.length)
    (h : (read config place duration (chunk.children FrameHeader.encodedLength)).result =
      .ok frame) :
    frame.duration = duration ∧ ∃ parts,
      Tiles (chunk.offset + 24) (chunk.payload.drop FrameHeader.encodedLength) parts ∧
      frame.Shows config parts := by
  obtain ⟨parts, htiles, content, hfold, hframe⟩ := (read_eq_ok_iff hlt hlong).mp h
  obtain ⟨info, span, himage, rfl⟩ := frame?_eq_some_iff.mp hframe
  exact ⟨rfl, parts, htiles, content.alpha, rfl, rfl, traces_of_foldlM hfold info span himage⟩

end FrameContent

/-! ### Among the chunks of a file -/

namespace Assembly

variable {config : Config} {file next told : Assembly} {chunks : List Chunk} {chunk : Chunk}

/-- Every frame so far was brought by its chunk and lies on the canvas, and an alpha plane that
waits for its image is that of a chunk. -/
structure Traces (config : Config) (chunks : List Chunk) (file : Assembly) : Prop where
  pending : PlaneAmong chunks file.pendingAlpha
  frames : List.Forall₂ (Frame.IsBroughtBy config chunks)
    (chunks.filter (·.kind.bringsFrame)) file.frames
  fits : ∀ frame ∈ file.frames, ∃ canvas, file.canvas = some canvas ∧
    frame.rect.FitsWithin canvas

theorem traces_nil (config : Config) : Traces config [] {} where
  pending := planeAmong_none _
  frames := .nil
  fits _ h := absurd h List.not_mem_nil

/-- Before what brings a frame there is none. -/
theorem Describes.frames_eq_nil (hd : Describes chunks file)
    (h : ∀ k ∈ chunks.map Chunk.kind, ¬ k.bringsFrame) : file.frames = [] := by
  by_contra hne
  obtain ⟨found, hmem, hbrings⟩ := hd.frames_ne_nil_iff.mp hne
  exact h _ (List.mem_map_of_mem hmem) hbrings

/-- Where an image may come there is no frame yet. -/
theorem Describes.frames_eq_nil_of_still (hd : Describes chunks file) (himage : ¬ file.HasImage)
    (hanimation : ¬ file.HasAnimation) : file.frames = [] := by
  rw [hd.not_hasImage_iff] at himage
  rw [hd.hasAnimation_iff, not_or] at hanimation
  refine hd.frames_eq_nil fun k hk hbrings => ?_
  rcases Bool.or_eq_true _ _ ▸ hbrings with h | h
  · exact himage k hk h
  · exact hanimation.2 (eq_of_beq h ▸ hk)

namespace Traces

/-- A chunk that brings no frame and does not move the canvas under one. -/
theorem concat_of_not_bringsFrame (ht : Traces config chunks file)
    (hkind : ¬ chunk.kind.bringsFrame) (hframes : told.frames = file.frames)
    (hcanvas : file.frames = [] ∨ told.canvas = file.canvas)
    (hpending : PlaneAmong (chunks ++ [chunk]) told.pendingAlpha) :
    Traces config (chunks ++ [chunk]) told where
  pending := hpending
  frames := by
    rw [hframes, List.filter_append, List.filter_singleton, Bool.eq_false_iff.mpr hkind,
      cond_false, List.append_nil]
    exact ht.frames.imp fun _ _ h => h.concat chunk
  fits frame hframe := by
    rw [hframes] at hframe
    rcases hcanvas with hnone | hcanvas
    · rw [hnone] at hframe
      exact absurd hframe List.not_mem_nil
    · rw [hcanvas]
      exact ht.fits frame hframe

/-- A chunk that brings a frame. -/
theorem concat_of_bringsFrame (ht : Traces config chunks file) (hkind : chunk.kind.bringsFrame)
    (frame : Frame) (canvas : Size) (hframes : told.frames = file.frames ++ [frame])
    (hold : file.frames = [] ∨ told.canvas = file.canvas) (hcanvas : told.canvas = some canvas)
    (hfits : frame.rect.FitsWithin canvas)
    (hframe : frame.IsBroughtBy config (chunks ++ [chunk]) chunk)
    (hpending : PlaneAmong (chunks ++ [chunk]) told.pendingAlpha) :
    Traces config (chunks ++ [chunk]) told where
  pending := hpending
  frames := by
    rw [hframes, List.filter_append, List.filter_singleton, hkind, cond_true]
    exact List.rel_append (ht.frames.imp fun _ _ h => h.concat chunk) (.cons hframe .nil)
  fits found hfound := by
    rw [hframes, List.mem_append, List.mem_singleton] at hfound
    rcases hfound with hfound | rfl
    · rcases hold with hnone | hold
      · rw [hnone] at hfound
        exact absurd hfound List.not_mem_nil
      · rw [hold]
        exact ht.fits found hfound
    · exact ⟨canvas, hcanvas, hfits⟩

theorem addFrame (ht : Traces config chunks file) (hlt : chunk.payload.length < 2 ^ 32)
    (hkind : chunk.kind = .frame) (h : (file.addFrame config chunk).result = .ok told) :
    Traces config (chunks ++ [chunk]) told := by
  obtain ⟨-, -, hlong, -, -, canvas, hcanvas, hfits, frame, hread, rfl⟩ :=
    addFrame_eq_ok_iff.mp h
  have hplace := FrameContent.toPlacement_of_read hlt hlong hread
  have hrect : frame.rect = (FrameHeader.decode chunk.payload).rect :=
    congrArg Placement.rect hplace
  obtain ⟨hduration, parts, htiles, hshows⟩ := FrameContent.traces_of_read hlt hlong hread
  refine ht.concat_of_bringsFrame (by rw [hkind]; rfl) frame canvas rfl (.inr rfl) hcanvas
    (by rw [hrect]; exact hfits) ?_ (ht.pending.concat chunk)
  exact .animated hkind hlong hrect hduration parts htiles hshows

theorem addImage (hd : Describes chunks file) (ht : Traces config chunks file)
    (format : ImageFormat) (hkind : chunk.kind = format.kind)
    (h : (file.addImage config format chunk).result = .ok told) :
    Traces config (chunks ++ [chunk]) told := by
  obtain ⟨himage, hanimation, hlossless, info, hinfo, hsize, rfl⟩ := addImage_eq_ok_iff.mp h
  obtain rfl := ImageInfo.format_of_inspect hinfo
  have hstill : chunk.kind.isImage := by
    rw [hkind]
    cases info.format <;> rfl
  have hlossy : file.pendingAlpha.isSome → info.format = .lossy := by
    intro hsome
    obtain ⟨⟨alpha, span⟩, hpending⟩ := Option.isSome_iff_exists.mp hsome
    obtain ⟨plane, hmem, hplane, -⟩ := ht.pending alpha span hpending
    cases hformat : info.format with
    | lossy => rfl
    | lossless =>
      refine absurd ?_ (hlossless hformat)
      rw [hd.has_iff .alpha rfl, ← hplane]
      exact List.mem_map_of_mem hmem
  have hcanvas : (if file.extended.isSome then file.canvas else some info.size) =
      some info.size := by
    cases hextended : file.extended with
    | none => rfl
    | some header =>
      rw [Option.isSome_some, if_pos rfl, hd.canvas_eq header hextended, hsize header hextended]
  refine ht.concat_of_bringsFrame (by rw [ChunkKind.bringsFrame, hstill]; rfl)
    (file.stillFrame chunk info) info.size rfl
    (.inl (hd.frames_eq_nil_of_still himage hanimation)) hcanvas ?_ ?_ (planeAmong_none _)
  · exact ⟨Nat.le_of_eq (Nat.zero_add _), Nat.le_of_eq (Nat.zero_add _)⟩
  · exact .still hstill rfl rfl ⟨file.pendingAlpha, rfl, rfl,
      PictureAt.among ⟨hkind, hinfo, rfl, ht.pending, hlossy⟩⟩

theorem interpret (hg : ChunkGrammar chunks) (hd : Describes chunks file)
    (ht : Traces config chunks file) (hlt : chunk.payload.length < 2 ^ 32)
    (h : (file.interpret config chunk).result = .ok told) :
    Traces config (chunks ++ [chunk]) told := by
  rw [Assembly.interpret] at h
  have hbrings {kind : ChunkKind} (hkind : chunk.kind = kind) (hnot : kind.bringsFrame = false) :
      ¬ chunk.kind.bringsFrame := by
    rw [hkind, hnot]
    exact Bool.false_ne_true
  cases hkind : chunk.kind with
  | canvas =>
    rw [hkind] at h
    obtain ⟨hcanvas, himage, -, rfl⟩ := addCanvas_eq_ok_iff.mp h
    rw [hd.has_iff .canvas rfl] at hcanvas
    rw [hd.not_hasImage_iff] at himage
    have hnone : file.frames = [] := hd.frames_eq_nil fun _ =>
      hg.layout.not_bringsFrame hcanvas himage
    exact ht.concat_of_not_bringsFrame (hbrings hkind rfl) rfl (.inl hnone)
      (ht.pending.concat chunk)
  | animation =>
    rw [hkind] at h
    obtain ⟨-, -, -, rfl⟩ := addAnimation_eq_ok_iff.mp h
    exact ht.concat_of_not_bringsFrame (hbrings hkind rfl) rfl (.inr rfl)
      (ht.pending.concat chunk)
  | frame =>
    rw [hkind] at h
    exact ht.addFrame hlt hkind h
  | lossy =>
    rw [hkind] at h
    exact ht.addImage hd .lossy hkind h
  | lossless =>
    rw [hkind] at h
    exact ht.addImage hd .lossless hkind h
  | alpha =>
    rw [hkind] at h
    obtain ⟨-, -, -, -, info, hinfo, rfl⟩ := addAlpha_eq_ok_iff.mp h
    refine ht.concat_of_not_bringsFrame (hbrings hkind rfl) rfl (.inr rfl) ?_
    rintro _ _ ⟨⟩
    exact ⟨chunk, List.mem_append_right _ (List.mem_singleton_self chunk), hkind, hinfo, rfl⟩
  | iccp =>
    rw [hkind] at h
    obtain ⟨-, -, -, rfl⟩ := addProfile_eq_ok_iff.mp h
    exact ht.concat_of_not_bringsFrame (hbrings hkind rfl) rfl (.inr rfl)
      (ht.pending.concat chunk)
  | exif | xmp | unknown _ =>
    rw [hkind] at h
    cases h
    exact ht.concat_of_not_bringsFrame (hbrings hkind rfl) rfl (.inr rfl)
      (ht.pending.concat chunk)

/-- What the frames keep stays true one chunk later. -/
theorem add (hg : ChunkGrammar chunks) (hd : Describes chunks file)
    (ht : Traces config chunks file) (hlt : chunk.payload.length < 2 ^ 32)
    (h : (file.add config chunk).result = .ok next) : Traces config (chunks ++ [chunk]) next := by
  obtain ⟨told, htold, rfl⟩ := add_eq_ok_iff.mp h
  have htold := ht.interpret hg hd hlt htold
  exact ⟨htold.pending, htold.frames, htold.fits⟩

end Traces

/-- What the frames keep is known at the end. -/
theorem traces_of_foldlM (hlt : ∀ chunk ∈ chunks, chunk.payload.length < 2 ^ 32)
    (h : (chunks.foldlM (Assembly.add config) {}).result = .ok file) :
    Traces config chunks file := by
  refine foldlM_concat_induction (traces_nil config) ?_ h
  rintro front chunk back state next rfl hstate ht hnext
  obtain ⟨hfront, hlast⟩ := List.forall_mem_append.mp hlt
  obtain ⟨htaken, hdescribes⟩ := foldlM_add config front hfront
  exact ht.add (htaken.mp ⟨state, hstate⟩) (hdescribes state hstate)
    (hlast chunk (List.mem_cons_self ..)) hnext

end Assembly

/-- **What is kept of an accepted file.** The bytes up to the declared end are a run of chunks,
and every frame was brought by one of them. -/
theorem traces_of_parse {config : Config} {data : Bytes} {header : FileHeader}
    (h : (parse config data).result = .ok header) :
    IsFramed data ∧ ∃ chunks file,
      Tiles 12 (data.slice ⟨12, data.declaredLength + 8⟩) chunks ∧ FileGrammar chunks ∧
      Assembly.Describes chunks file ∧ Assembly.Traces config chunks file ∧
      header = file.toHeader (data.declaredLength + 8) := by
  obtain ⟨hframed, chunks, file, htiles, hfold, hgrammar, hd, hheader⟩ := assembly_of_parse h
  exact ⟨hframed, chunks, file, htiles, hgrammar, hd,
    Assembly.traces_of_foldlM (fun _ => htiles.length_lt) hfold, hheader⟩

end WebP
