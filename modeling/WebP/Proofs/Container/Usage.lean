import Mathlib.Data.List.Pairwise
import WebP.Proofs.Container.Placement

/-!
# What becomes of images and alpha planes

An image or an alpha plane that stands in an accepted file is to be found in exactly one frame, and
a frame has nothing that does not stand in the file. For images this holds without exception, at the
top level and inside frames, and so it does for the alpha planes inside frames.

An alpha plane at the top level waits for the image behind it. What may not come behind an animation
is refused there, but an animation is not refused behind a plane that still waits; its frames bring
their own images, and the plane is lost. This is the only way in which anything is lost.

## Main definitions

* `WebP.Bytes.Holds`: a chunk that stands in a file, at the top level or inside a frame.
* `WebP.FileHeader.UsesImages`, `WebP.FileHeader.UsesAlpha`: what the frames of a file have, and
  that nothing is lost or used twice.
* `WebP.Frame.Uses`: a frame uses what stands inside its chunk.
* `WebP.Assembly.Uses`: what has become of the chunks so far.

## Main results

* `WebP.FrameContent.uses_of_read`: the chunks inside a frame.
* `WebP.Assembly.uses_of_foldlM`: the chunks of a file.
* `WebP.uses_of_parse`: what becomes of images and alpha planes, and when a plane is lost.
-/

namespace WebP

open Outcome

/-! ### The chunks of a file, at both levels -/

/-- Bytes that begin at an offset are a run of chunks in at most one way. -/
theorem Tiles.unique {offset : Nat} {bytes : Bytes} {first second : List Chunk}
    (h₁ : Tiles offset bytes first) (h₂ : Tiles offset bytes second)
    (hlt : bytes.length < 2 ^ 32) : first = second :=
  congrArg Walker.Walk.chunks
    ((Walker.walk_of_tiles h₁ hlt).symm.trans (Walker.walk_of_tiles h₂ hlt))

/-- The chunk stands in the file, at the top level or behind the header of a frame. -/
inductive Bytes.Holds (data : Bytes) : Chunk → Prop
  | top {chunks : List Chunk} {chunk : Chunk}
      (tiles : Tiles 12 (data.slice ⟨12, data.declaredLength + 8⟩) chunks)
      (mem : chunk ∈ chunks) : Holds data chunk
  | inside {chunks parts : List Chunk} {frame part : Chunk}
      (tiles : Tiles 12 (data.slice ⟨12, data.declaredLength + 8⟩) chunks)
      (mem : frame ∈ chunks) (isFrame : frame.kind = .frame)
      (behind : Tiles (frame.offset + 24) (frame.payload.drop FrameHeader.encodedLength) parts)
      (part_mem : part ∈ parts) : Holds data part

/-- Of a kind of chunks of which there is at most one, any two are the same. -/
theorem Chunk.eq_of_countP_le_one {p : ChunkKind → Bool} {chunks : List Chunk} {a b : Chunk}
    (h : (chunks.map Chunk.kind).countP p ≤ 1) (ha : a ∈ chunks) (hb : b ∈ chunks)
    (hpa : p a.kind) (hpb : p b.kind) : a = b := by
  rw [List.countP_map, List.countP_eq_length_filter] at h
  have hmem {c : Chunk} (hc : c ∈ chunks) (hp : p c.kind) :
      c ∈ chunks.filter (p ∘ Chunk.kind) := List.mem_filter.mpr ⟨hc, hp⟩
  have hma := hmem ha hpa
  have hmb := hmem hb hpb
  match hfound : chunks.filter (p ∘ Chunk.kind) with
  | [] =>
    rw [hfound] at hma
    exact absurd hma List.not_mem_nil
  | [only] =>
    rw [hfound, List.mem_singleton] at hma hmb
    rw [hma, hmb]
  | _ :: _ :: rest =>
    rw [hfound] at h
    exact absurd h (Nat.not_le.mpr (Nat.lt_add_left rest.length (Nat.lt_add_one 1)))

/-! ### Inside a frame -/

/-- The frame uses the image and the alpha plane among the chunks inside it. -/
structure Frame.Uses (parts : List Chunk) (frame : Frame) : Prop where
  image : ∀ part ∈ parts, part.kind.isImage → frame.payload = part.payloadSpan
  alpha : ∀ part ∈ parts, part.kind = .alpha → frame.alphaPayload = some part.payloadSpan

/-- The frame uses what stands inside the chunk, if that is the chunk of a frame. -/
def Frame.UsesChunk (chunk : Chunk) (frame : Frame) : Prop :=
  chunk.kind = .frame → ∃ parts,
    Tiles (chunk.offset + 24) (chunk.payload.drop FrameHeader.encodedLength) parts ∧
      frame.Uses parts

/-- **What stands inside a frame is used.** -/
theorem FrameContent.uses_of_read {config : Config} {place : Placement} {duration : Nat}
    {frame : Frame} {chunk : Chunk} (hlt : chunk.payload.length < 2 ^ 32)
    (hlong : FrameHeader.encodedLength ≤ chunk.payload.length)
    (h : (read config place duration (chunk.children FrameHeader.encodedLength)).result =
      .ok frame) :
    ∃ parts, Tiles (chunk.offset + 24) (chunk.payload.drop FrameHeader.encodedLength) parts ∧
      frame.Uses parts := by
  obtain ⟨parts, htiles, content, hfold, hframe⟩ := (read_eq_ok_iff hlt hlong).mp h
  obtain ⟨htaken, hdescribes⟩ := foldlM_add config place.rect.size parts
  have hd := hdescribes content hfold
  have hlayout := (htaken.mp ⟨content, hfold⟩).layout
  obtain ⟨info, span, himage, rfl⟩ := frame?_eq_some_iff.mp hframe
  refine ⟨parts, htiles, ⟨fun part hpart hkind => ?_, fun part hpart hkind => ?_⟩⟩
  · obtain ⟨found, hfound, hfoundKind, -, rfl⟩ := hd.image_eq_some info span himage
    have hfoundImage : found.kind.isImage := by
      rw [hfoundKind]
      cases info.format <;> rfl
    rw [Chunk.eq_of_countP_le_one hlayout.image_once hpart hfound hkind hfoundImage]
  · have hsome : content.alpha ≠ none := fun hnone =>
      hd.alpha_eq_none.mp hnone (hkind ▸ List.mem_map_of_mem hpart)
    obtain ⟨⟨plane, range⟩, hplane⟩ := Option.ne_none_iff_exists'.mp hsome
    obtain ⟨found, hfound, hfoundKind, -, rfl⟩ := hd.alpha_eq_some plane range hplane
    rw [Chunk.eq_of_countP_le_one hlayout.alpha_once hpart hfound (beq_iff_eq.mpr hkind)
      (beq_iff_eq.mpr hfoundKind), hplane]
    rfl

/-! ### Among the chunks of a file -/

namespace Assembly

variable {config : Config} {file next told : Assembly} {chunks : List Chunk} {chunk : Chunk}

/-- What has become of the images and the alpha planes so far: each frame uses what stands inside
its chunk, and an alpha plane at the top level waits until an image takes it. -/
structure Uses (chunks : List Chunk) (file : Assembly) : Prop where
  frames : List.Forall₂ Frame.UsesChunk (chunks.filter (·.kind.bringsFrame)) file.frames
  waiting : (∀ k ∈ chunks.map Chunk.kind, ¬ k.isImage) → ∀ plane ∈ chunks, plane.kind = .alpha →
    file.pendingAlpha.map (·.2) = some plane.payloadSpan
  taken : ∀ image ∈ chunks, image.kind.isImage → ∀ plane ∈ chunks, plane.kind = .alpha →
    ∃ frame, file.frames.head? = some frame ∧ frame.alphaPayload = some plane.payloadSpan

theorem uses_nil : Uses [] {} :=
  ⟨.nil, fun _ _ h => absurd h List.not_mem_nil, fun _ h => absurd h List.not_mem_nil⟩

theorem forall_mem_concat {chunks : List Chunk} {chunk : Chunk} {P : Chunk → Prop} :
    (∀ c ∈ chunks ++ [chunk], P c) ↔ (∀ c ∈ chunks, P c) ∧ P chunk := by
  rw [List.forall_mem_append, List.forall_mem_singleton]

namespace Uses

/-- A chunk that has nothing to do with images leaves everything in its place. -/
theorem concat_of_other (hu : Uses chunks file) (halpha : chunk.kind ≠ .alpha)
    (hkind : ¬ chunk.kind.bringsFrame) (hframes : told.frames = file.frames)
    (hpending : told.pendingAlpha = file.pendingAlpha) : Uses (chunks ++ [chunk]) told where
  frames := by
    rw [hframes, List.filter_append, List.filter_singleton, Bool.eq_false_iff.mpr hkind,
      cond_false, List.append_nil]
    exact hu.frames
  waiting hnone := by
    rw [List.map_append, List.forall_mem_append] at hnone
    rw [forall_mem_concat, hpending]
    exact ⟨hu.waiting hnone.1, fun h => absurd h halpha⟩
  taken := by
    simp only [forall_mem_concat, hframes]
    exact ⟨fun image himage hisImage =>
      ⟨hu.taken image himage hisImage, fun h => absurd h halpha⟩,
      fun h => absurd ((Bool.or_eq_true _ _).mpr (.inl h)) hkind⟩

/-- The frame of an animation that is added behind the others. -/
theorem concat_of_frame (hu : Uses chunks file) (hkind : chunk.kind = .frame) {frame : Frame}
    (hframe : frame.UsesChunk chunk) (hframes : told.frames = file.frames ++ [frame])
    (hpending : told.pendingAlpha = file.pendingAlpha) : Uses (chunks ++ [chunk]) told where
  frames := by
    rw [hframes, List.filter_append, List.filter_singleton, hkind]
    exact List.rel_append hu.frames (.cons hframe .nil)
  waiting hnone := by
    rw [List.map_append, List.forall_mem_append] at hnone
    rw [forall_mem_concat, hpending]
    exact ⟨hu.waiting hnone.1, fun h => nomatch hkind.symm.trans h⟩
  taken := by
    have himage : ¬ chunk.kind.isImage := by
      rw [hkind]
      exact Bool.false_ne_true
    simp only [forall_mem_concat]
    refine ⟨fun image hmem hisImage => ⟨fun plane hplane hplaneKind => ?_,
      fun h => nomatch hkind.symm.trans h⟩, fun h => absurd h himage⟩
    obtain ⟨first, hfirst, hspan⟩ := hu.taken image hmem hisImage plane hplane hplaneKind
    refine ⟨first, ?_, hspan⟩
    rw [hframes, List.head?_append, hfirst, Option.some_or]

/-- An image takes the alpha plane that waits for it. -/
theorem addImage (hu : Uses chunks file) (hd : Describes chunks file) (format : ImageFormat)
    (hkind : chunk.kind = format.kind)
    (h : (file.addImage config format chunk).result = .ok told) :
    Uses (chunks ++ [chunk]) told := by
  obtain ⟨himage, hanimation, -, info, -, -, rfl⟩ := addImage_eq_ok_iff.mp h
  have hnone := hd.frames_eq_nil_of_still himage hanimation
  rw [hd.not_hasImage_iff] at himage
  have hisImage : chunk.kind.isImage := by
    rw [hkind]
    cases format <;> rfl
  have hother {kind : ChunkKind} (hnot : kind.isImage = false) : chunk.kind ≠ kind := by
    rintro rfl
    exact Bool.false_ne_true (hnot.symm.trans hisImage)
  refine ⟨?_, fun h => ?_, ?_⟩
  · rw [List.filter_append, List.filter_singleton, ChunkKind.bringsFrame, hisImage]
    exact List.rel_append hu.frames (.cons (fun h => absurd h (hother rfl)) .nil)
  · rw [List.map_append, List.forall_mem_append] at h
    exact absurd hisImage (h.2 _ (List.mem_singleton_self _))
  · intro _ _ _
    rw [forall_mem_concat]
    refine ⟨fun plane hplane hplaneKind => ?_, fun h => absurd h (hother rfl)⟩
    refine ⟨file.stillFrame chunk info, ?_, hu.waiting himage plane hplane hplaneKind⟩
    change (file.frames ++ [file.stillFrame chunk info]).head? = _
    rw [hnone]
    rfl

/-- An alpha plane waits for its image. -/
theorem addAlpha (hu : Uses chunks file) (hd : Describes chunks file)
    (hkind : chunk.kind = .alpha) (h : (file.addAlpha chunk).result = .ok told) :
    Uses (chunks ++ [chunk]) told := by
  obtain ⟨-, -, himage, halpha, info, -, rfl⟩ := addAlpha_eq_ok_iff.mp h
  rw [hd.not_hasImage_iff] at himage
  rw [hd.has_iff .alpha rfl] at halpha
  have hbrings : chunk.kind.bringsFrame = false := by
    rw [hkind]
    rfl
  refine ⟨?_, fun _ => ?_, ?_⟩
  · rw [List.filter_append, List.filter_singleton, hbrings, cond_false, List.append_nil]
    exact hu.frames
  · rw [forall_mem_concat]
    exact ⟨fun plane hplane hplaneKind =>
      absurd (hplaneKind ▸ List.mem_map_of_mem hplane) halpha, fun _ => rfl⟩
  · rw [forall_mem_concat]
    refine ⟨fun image hmem hisImage =>
      absurd hisImage (himage _ (List.mem_map_of_mem hmem)), fun hisImage => ?_⟩
    rw [hkind] at hisImage
    cases hisImage

theorem interpret (hu : Uses chunks file) (hd : Describes chunks file)
    (hlt : chunk.payload.length < 2 ^ 32)
    (h : (file.interpret config chunk).result = .ok told) : Uses (chunks ++ [chunk]) told := by
  rw [Assembly.interpret] at h
  have hother {kind : ChunkKind} (hkind : chunk.kind = kind) (hnot : (kind == .alpha) = false)
      (hbrings : kind.bringsFrame = false) (hframes : told.frames = file.frames)
      (hpending : told.pendingAlpha = file.pendingAlpha) : Uses (chunks ++ [chunk]) told := by
    subst hkind
    exact hu.concat_of_other (ne_of_beq_false hnot) (Bool.eq_false_iff.mp hbrings) hframes hpending
  cases hkind : chunk.kind with
  | canvas =>
    rw [hkind] at h
    obtain ⟨-, -, -, rfl⟩ := addCanvas_eq_ok_iff.mp h
    exact hother hkind rfl rfl rfl rfl
  | animation =>
    rw [hkind] at h
    obtain ⟨-, -, -, rfl⟩ := addAnimation_eq_ok_iff.mp h
    exact hother hkind rfl rfl rfl rfl
  | frame =>
    rw [hkind] at h
    obtain ⟨-, -, hlong, -, -, -, -, -, frame, hread, rfl⟩ := addFrame_eq_ok_iff.mp h
    exact hu.concat_of_frame hkind (fun _ => FrameContent.uses_of_read hlt hlong hread) rfl rfl
  | lossy =>
    rw [hkind] at h
    exact hu.addImage hd .lossy hkind h
  | lossless =>
    rw [hkind] at h
    exact hu.addImage hd .lossless hkind h
  | alpha =>
    rw [hkind] at h
    exact hu.addAlpha hd hkind h
  | iccp =>
    rw [hkind] at h
    obtain ⟨-, -, -, rfl⟩ := addProfile_eq_ok_iff.mp h
    exact hother hkind rfl rfl rfl rfl
  | exif | xmp | unknown _ =>
    rw [hkind] at h
    cases h
    exact hother hkind rfl rfl rfl rfl

/-- What has become of the chunks stays true one chunk later. -/
theorem add (hu : Uses chunks file) (hd : Describes chunks file)
    (hlt : chunk.payload.length < 2 ^ 32) (h : (file.add config chunk).result = .ok next) :
    Uses (chunks ++ [chunk]) next := by
  obtain ⟨told, htold, rfl⟩ := add_eq_ok_iff.mp h
  have hused := hu.interpret hd hlt htold
  exact ⟨hused.frames, hused.waiting, hused.taken⟩

end Uses

/-- What has become of all chunks of a file. -/
theorem uses_of_foldlM (hlt : ∀ chunk ∈ chunks, chunk.payload.length < 2 ^ 32)
    (h : (chunks.foldlM (Assembly.add config) {}).result = .ok file) : Uses chunks file := by
  refine foldlM_concat_induction uses_nil ?_ h
  rintro front chunk back state next rfl hstate hu hnext
  obtain ⟨hfront, hlast⟩ := List.forall_mem_append.mp hlt
  exact hu.add ((foldlM_add config front hfront).2 state hstate)
    (hlast chunk (List.mem_cons_self ..)) hnext

end Assembly

/-! ### Where the chunks of the frames are -/

/-- The chunks of a file are those at the top level and those inside its frames. -/
theorem Bytes.holds_iff {data : Bytes} {chunks : List Chunk} {chunk : Chunk}
    (htiles : Tiles 12 (data.slice ⟨12, data.declaredLength + 8⟩) chunks)
    (hlt : (data.slice ⟨12, data.declaredLength + 8⟩).length < 2 ^ 32) :
    data.Holds chunk ↔ chunk ∈ chunks ∨ ∃ frame ∈ chunks, frame.kind = .frame ∧ ∃ parts,
      Tiles (frame.offset + 24) (frame.payload.drop FrameHeader.encodedLength) parts ∧
        chunk ∈ parts := by
  constructor
  · intro h
    cases h with
    | top tiles mem => exact .inl (tiles.unique htiles hlt ▸ mem)
    | inside tiles mem isFrame behind part_mem =>
      exact .inr ⟨_, tiles.unique htiles hlt ▸ mem, isFrame, _, behind, part_mem⟩
  · rintro (hmem | ⟨frame, hmem, hkind, parts, hparts, hpart⟩)
    · exact .top htiles hmem
    · exact .inside htiles hmem hkind hparts hpart

/-- What is among given chunks that stand in the file stands in the file. -/
theorem Frame.Shows.held {config : Config} {data : Bytes} {chunks : List Chunk} {frame : Frame}
    (h : frame.Shows config chunks) (hheld : ∀ chunk ∈ chunks, data.Holds chunk) :
    (∃ chunk, data.Holds chunk ∧ chunk.kind.isImage ∧ frame.payload = chunk.payloadSpan) ∧
      ∀ span, frame.alphaPayload = some span →
        ∃ chunk, data.Holds chunk ∧ chunk.kind = .alpha ∧ span = chunk.payloadSpan := by
  obtain ⟨plane, -, hplane, front, chunk, back, rfl, hpicture⟩ := h
  refine ⟨⟨chunk, hheld chunk (List.mem_append_right _ (List.mem_cons_self ..)), ?_,
    hpicture.span_eq⟩, fun span hspan => ?_⟩
  · rw [hpicture.kind_eq]
    cases frame.image.format <;> rfl
  · rw [hplane] at hspan
    obtain ⟨⟨info, range⟩, hrange, rfl⟩ := Option.map_eq_some_iff.mp hspan
    obtain ⟨found, hmem, hkind, -, hfound⟩ := hpicture.plane_among info range hrange
    exact ⟨found, hheld found (List.mem_append_left _ hmem), hkind, hfound⟩

theorem Frame.IsBroughtBy.held {config : Config} {data : Bytes} {chunks : List Chunk}
    {chunk : Chunk} {frame : Frame} (h : frame.IsBroughtBy config chunks chunk)
    (htiles : Tiles 12 (data.slice ⟨12, data.declaredLength + 8⟩) chunks) (hmem : chunk ∈ chunks) :
    (∃ chunk, data.Holds chunk ∧ chunk.kind.isImage ∧ frame.payload = chunk.payloadSpan) ∧
      ∀ span, frame.alphaPayload = some span →
        ∃ chunk, data.Holds chunk ∧ chunk.kind = .alpha ∧ span = chunk.payloadSpan := by
  cases h with
  | still _ _ _ shows => exact shows.held fun _ => .top htiles
  | animated isFrame _ _ _ parts tiles shows =>
    exact shows.held fun _ => .inside htiles hmem isFrame tiles

/-- The chunks of a run that are not the same have no byte of their payloads in common. -/
theorem Tiles.not_within {offset : Nat} {bytes : Bytes} {chunks : List Chunk} {a b : Chunk}
    (h : Tiles offset bytes chunks) (ha : a ∈ chunks) (hb : b ∈ chunks) (hne : a ≠ b) :
    ¬ a.payloadSpan.Within b.payloadSpan := by
  have hapart : chunks.Pairwise fun a b =>
      a.payloadSpan.stop ≤ b.offset ∨ b.payloadSpan.stop ≤ a.offset := h.pairwise.imp .inl
  have : Std.Symm fun a b : Chunk =>
      a.payloadSpan.stop ≤ b.offset ∨ b.payloadSpan.stop ≤ a.offset := ⟨fun _ _ => Or.symm⟩
  rintro ⟨hstart, hstop⟩
  rcases hapart.forall ha hb hne with hbefore | hbehind
  · change b.offset + 8 ≤ a.offset + 8 at hstart
    change a.offset + 8 + a.payload.length ≤ b.offset at hbefore
    omega
  · change b.offset + 8 + b.payload.length ≤ a.offset at hbehind
    change a.offset + 8 + a.payload.length ≤ b.offset + 8 + b.payload.length at hstop
    omega

/-- The frame that a chunk has brought. -/
theorem exists_frame_of_forall₂ {R : Chunk → Frame → Prop} {chunks : List Chunk}
    {frames : List Frame} {chunk : Chunk}
    (h : List.Forall₂ R (chunks.filter (·.kind.bringsFrame)) frames) (hmem : chunk ∈ chunks)
    (hbrings : chunk.kind.bringsFrame) :
    ∃ (i : Nat) (frame : Frame), frames[i]? = some frame ∧ R chunk frame := by
  have hfound : chunk ∈ chunks.filter (·.kind.bringsFrame) :=
    List.mem_filter.mpr ⟨hmem, hbrings⟩
  obtain ⟨i, hi⟩ := List.mem_iff_getElem?.mp hfound
  obtain ⟨frame, hframe, hR⟩ := exists_getElem?_of_forall₂ h.flip hi
  exact ⟨i, frame, hframe, hR⟩

namespace Assembly

variable {config : Config} {data : Bytes} {file : Assembly} {chunks : List Chunk}
  {chunk : Chunk} {frame : Frame} {i : Nat}

/-- What stands inside the chunk of a frame is used by the frame. -/
theorem Uses.exists_inside (hu : Uses chunks file) (hmem : chunk ∈ chunks)
    (hkind : chunk.kind = .frame) (hlt : chunk.payload.length < 2 ^ 32) {parts : List Chunk}
    (hparts : Tiles (chunk.offset + 24) (chunk.payload.drop FrameHeader.encodedLength) parts) :
    ∃ (i : Nat) (frame : Frame), file.frames[i]? = some frame ∧ frame.Uses parts := by
  obtain ⟨i, frame, hframe, huses⟩ :=
    exists_frame_of_forall₂ hu.frames hmem (by rw [hkind]; rfl)
  obtain ⟨found, hfound, hused⟩ := huses hkind
  have hrest : (chunk.payload.drop FrameHeader.encodedLength).length < 2 ^ 32 := by
    rw [List.length_drop]
    omega
  exact ⟨i, frame, hframe, hfound.unique hparts hrest ▸ hused⟩

section Tiled

variable (htiles : Tiles 12 (data.slice ⟨12, data.declaredLength + 8⟩) chunks)
  (hlt : (data.slice ⟨12, data.declaredLength + 8⟩).length < 2 ^ 32)

include htiles hlt

/-- Every image is that of a frame. -/
theorem Uses.exists_payload (hu : Uses chunks file) (hd : Describes chunks file)
    (hheld : data.Holds chunk) (himage : chunk.kind.isImage) :
    ∃ (i : Nat) (frame : Frame), file.frames[i]? = some frame ∧
      frame.payload = chunk.payloadSpan := by
  rcases (Bytes.holds_iff htiles hlt).mp hheld with
    hmem | ⟨outer, hmem, hkind, parts, hparts, hpart⟩
  · obtain ⟨i, frame, hframe, hcomes⟩ :=
      exists_frame_of_forall₂ hd.frames hmem ((Bool.or_eq_true _ _).mpr (.inl himage))
    exact ⟨i, frame, hframe, hcomes.still himage⟩
  · obtain ⟨i, frame, hframe, hused⟩ :=
      hu.exists_inside hmem hkind (htiles.length_lt hmem) hparts
    exact ⟨i, frame, hframe, hused.image chunk hpart himage⟩

/-- Every alpha plane is that of a frame, if one at the top level has an image there. -/
theorem Uses.exists_alphaPayload (hu : Uses chunks file) (hheld : data.Holds chunk)
    (hkind : chunk.kind = .alpha)
    (himage : chunk ∈ chunks → ∃ image ∈ chunks, image.kind.isImage) :
    ∃ (i : Nat) (frame : Frame), file.frames[i]? = some frame ∧
      frame.alphaPayload = some chunk.payloadSpan := by
  rcases (Bytes.holds_iff htiles hlt).mp hheld with
    hmem | ⟨outer, hmem, houter, parts, hparts, hpart⟩
  · obtain ⟨image, himageMem, hisImage⟩ := himage hmem
    obtain ⟨frame, hframe, hspan⟩ := hu.taken image himageMem hisImage chunk hmem hkind
    exact ⟨0, frame, List.head?_eq_getElem?.symm.trans hframe, hspan⟩
  · obtain ⟨i, frame, hframe, hused⟩ :=
      hu.exists_inside hmem houter (htiles.length_lt hmem) hparts
    exact ⟨i, frame, hframe, hused.alpha chunk hpart hkind⟩

omit hlt in
/-- What a frame has stands in the file. -/
theorem Traces.held (ht : Traces config chunks file) (hmem : frame ∈ file.frames) :
    (∃ chunk, data.Holds chunk ∧ chunk.kind.isImage ∧ frame.payload = chunk.payloadSpan) ∧
      ∀ span, frame.alphaPayload = some span →
        ∃ chunk, data.Holds chunk ∧ chunk.kind = .alpha ∧ span = chunk.payloadSpan := by
  obtain ⟨i, hi⟩ := List.mem_iff_getElem?.mp hmem
  obtain ⟨brought, hbrought, hframe⟩ := exists_getElem?_of_forall₂ ht.frames hi
  exact hframe.held htiles (mem_of_filter_getElem? hbrought).1

omit hlt in
/-- A frame that has an alpha plane of the top level has its image from there. -/
theorem Describes.exists_image_of_alphaPayload (hd : Describes chunks file)
    (hmem : chunk ∈ chunks) (hkind : chunk.kind = .alpha) (hframe : file.frames[i]? = some frame)
    (hspan : frame.alphaPayload = some chunk.payloadSpan) :
    ∃ image ∈ chunks, image.kind.isImage := by
  obtain ⟨brought, hbrought, hcomes⟩ := exists_getElem?_of_forall₂ hd.frames hframe
  obtain ⟨hin, hbrings⟩ := mem_of_filter_getElem? hbrought
  rcases (Bool.or_eq_true _ _).mp hbrings with himage | hisFrame
  · exact ⟨brought, hin, himage⟩
  · -- the plane would lie inside another chunk of the top level
    have hkind' : brought.kind = .frame := eq_of_beq hisFrame
    have hne : chunk ≠ brought := by
      rintro rfl
      cases hkind.symm.trans hkind'
    exact absurd ((hcomes.animated hkind').2 _ hspan) (htiles.not_within hmem hin hne)

end Tiled

end Assembly

/-! ### Accepted files -/

namespace FileHeader

/-- Every image of the file is that of exactly one frame, and every image and every alpha plane of a
frame stands in the file. -/
structure UsesImages (data : Bytes) (header : FileHeader) : Prop where
  once : ∀ chunk, data.Holds chunk → chunk.kind.isImage →
    ∃! i, ∃ frame, header.frame? i = some frame ∧ frame.payload = chunk.payloadSpan
  image_held : ∀ frame ∈ header.frames, ∃ chunk, data.Holds chunk ∧ chunk.kind.isImage ∧
    frame.payload = chunk.payloadSpan
  alpha_held : ∀ frame ∈ header.frames, ∀ span, frame.alphaPayload = some span →
    ∃ chunk, data.Holds chunk ∧ chunk.kind = .alpha ∧ span = chunk.payloadSpan

/-- Every alpha plane of the file is that of exactly one frame. -/
def UsesAlpha (data : Bytes) (header : FileHeader) : Prop :=
  ∀ chunk, data.Holds chunk → chunk.kind = .alpha →
    ∃! i, ∃ frame, header.frame? i = some frame ∧ frame.alphaPayload = some chunk.payloadSpan

end FileHeader

section Parse

variable {config : Config} {data : Bytes} {header : FileHeader}

/-- No two frames have a range in common. -/
theorem index_unique_of_parse (accepted : (parse config data).result = .ok header) {i j : Nat}
    {a b : Frame} (hi : header.frame? i = some a) (hj : header.frame? j = some b) {span : Span}
    (ha : span ∈ a.spans) (hb : span ∈ b.spans) : i = j := by
  have hle : span.start ≤ span.stop := (isPlaced_of_parse accepted hi).le_of_mem_spans ha
  rcases Nat.lt_trichotomy i j with hlt | heq | hlt
  · have hsep := spans_separated_of_parse accepted hlt hi hj span ha span hb
    omega
  · exact heq
  · have hsep := spans_separated_of_parse accepted hlt hj hi span hb span ha
    omega

/-- A frame that has a range is the only one that has it. -/
theorem existsUnique_of_parse (accepted : (parse config data).result = .ok header)
    {P : Frame → Prop} {span : Span} (hspan : ∀ frame, P frame → span ∈ frame.spans) {i : Nat}
    {frame : Frame} (hi : header.frame? i = some frame) (hP : P frame) :
    ∃! j, ∃ found, header.frame? j = some found ∧ P found := by
  refine ⟨i, ⟨frame, hi, hP⟩, ?_⟩
  rintro j ⟨found, hj, hfound⟩
  exact index_unique_of_parse accepted hj hi (hspan found hfound) (hspan frame hP)

theorem existsUnique_payload_of_parse (accepted : (parse config data).result = .ok header)
    {i : Nat} {frame : Frame} (hi : header.frame? i = some frame) {span : Span}
    (hspan : frame.payload = span) :
    ∃! j, ∃ found, header.frame? j = some found ∧ found.payload = span :=
  existsUnique_of_parse accepted
    (fun _ (h : _ = span) => List.mem_cons.mpr (.inl h.symm)) hi hspan

theorem existsUnique_alphaPayload_of_parse (accepted : (parse config data).result = .ok header)
    {i : Nat} {frame : Frame} (hi : header.frame? i = some frame) {span : Span}
    (hspan : frame.alphaPayload = some span) :
    ∃! j, ∃ found, header.frame? j = some found ∧ found.alphaPayload = some span :=
  existsUnique_of_parse accepted
    (fun _ h => List.mem_cons_of_mem _ (Option.mem_toList.mpr h)) hi hspan

/-- **What becomes of images and alpha planes.** In an accepted file no image is lost or used twice,
and no frame has an image or an alpha plane that is not there. No alpha plane is lost or used twice
exactly if a plane at the top level has an image at the top level. -/
theorem uses_of_parse (accepted : (parse config data).result = .ok header) :
    header.UsesImages data ∧
      (header.UsesAlpha data ↔ ((∃ entry ∈ header.chunks, entry.kind = .alpha) →
        ∃ entry ∈ header.chunks, entry.kind.isImage)) := by
  have hpayload {i : Nat} {frame : Frame} (hi : header.frame? i = some frame) {span : Span}
      (hspan : frame.payload = span) := existsUnique_payload_of_parse accepted hi hspan
  have hplane {i : Nat} {frame : Frame} (hi : header.frame? i = some frame) {span : Span}
      (hspan : frame.alphaPayload = some span) :=
    existsUnique_alphaPayload_of_parse accepted hi hspan
  obtain ⟨hframed, chunks, file, htiles, hfold, -, hd, rfl⟩ := assembly_of_parse accepted
  have hlt : ∀ chunk ∈ chunks, chunk.payload.length < 2 ^ 32 := fun _ => htiles.length_lt
  have hu := Assembly.uses_of_foldlM hlt hfold
  have ht := Assembly.traces_of_foldlM hlt hfold
  have hlen := hframed.length_chunks_lt
  have hentries (P : ChunkKind → Prop) :
      (∃ entry ∈ file.chunks, P entry.kind) ↔ ∃ chunk ∈ chunks, P chunk.kind := by
    simp only [hd.chunks_eq, List.mem_map, exists_exists_and_eq_and]
    rfl
  refine ⟨⟨fun chunk hheld himage => ?_, fun frame hmem => (ht.held htiles hmem).1,
    fun frame hmem => (ht.held htiles hmem).2⟩, ?_⟩
  · obtain ⟨i, frame, hi, hspan⟩ := hu.exists_payload htiles hlen hd hheld himage
    exact hpayload hi hspan
  · change _ ↔ ((∃ entry ∈ file.chunks, entry.kind = .alpha) →
      ∃ entry ∈ file.chunks, entry.kind.isImage = true)
    rw [hentries (· = .alpha), hentries (·.isImage = true)]
    constructor
    · rintro hall ⟨chunk, hmem, hkind⟩
      obtain ⟨i, ⟨frame, hframe, hspan⟩, -⟩ := hall chunk (.top htiles hmem) hkind
      exact hd.exists_image_of_alphaPayload htiles hmem hkind hframe hspan
    · intro himage chunk hheld hkind
      obtain ⟨i, frame, hi, hspan⟩ := hu.exists_alphaPayload htiles hlen hheld hkind
        fun hmem => himage ⟨chunk, hmem, hkind⟩
      exact hplane hi hspan

end Parse

/-- A file that announces an animation and has an alpha plane in front of it. -/
def alphaBeforeAnimation : Bytes :=
  (ChunkHeader.mk .riff 84).encode ++ FourCC.webp.bytes ++
    (ChunkHeader.mk .vp8x 10).encode ++ [2, 0, 0, 0, 0, 0, 0, 0, 0, 0] ++
    (ChunkHeader.mk .alph 2).encode ++ [0, 255] ++
    (ChunkHeader.mk .anim 6).encode ++ [0, 0, 0, 0, 0, 0] ++
    (ChunkHeader.mk .anmf 30).encode ++ [0, 0, 0, 0, 0, 0, 0, 0, 0, 0, 0, 0, 40, 0, 0, 0] ++
      (ChunkHeader.mk .vp8l 6).encode ++ [0x2f, 0, 0, 0, 0, 0]

/-- The file is accepted, and its only frame has no alpha plane. -/
theorem exists_parse_alphaBeforeAnimation :
    ∃ header, (parse {} alphaBeforeAnimation).result = .ok header ∧
      header.chunks.map ChunkEntry.kind = [.canvas, .alpha, .animation, .frame] ∧
      header.frames.map Frame.alphaPayload = [none] := by
  have hread : ((parse {} alphaBeforeAnimation).result.toOption.map fun header =>
      (header.chunks.map ChunkEntry.kind, header.frames.map Frame.alphaPayload)) =
      some ([.canvas, .alpha, .animation, .frame], [none]) := by
    decide +kernel
  obtain ⟨header, hheader, hvalues⟩ := Option.map_eq_some_iff.mp hread
  simp only [Prod.mk.injEq] at hvalues
  exact ⟨header, toOption_result_eq_some_iff.mp hheader, hvalues⟩

/-- In that file the image is used and the alpha plane is lost. -/
theorem uses_of_parse_alphaBeforeAnimation :
    ∃ header, (parse {} alphaBeforeAnimation).result = .ok header ∧
      header.UsesImages alphaBeforeAnimation ∧ ¬ header.UsesAlpha alphaBeforeAnimation := by
  obtain ⟨header, h, hkinds, -⟩ := exists_parse_alphaBeforeAnimation
  obtain ⟨himages, halpha⟩ := uses_of_parse h
  have hmem (kind : ChunkKind) (himage : kind ∈ header.chunks.map ChunkEntry.kind) :
      ∃ entry ∈ header.chunks, entry.kind = kind := List.mem_map.mp himage
  refine ⟨header, h, himages, fun hall => ?_⟩
  obtain ⟨entry, hentry, himage⟩ := halpha.mp hall (hmem .alpha (by rw [hkinds]; decide))
  have hkind : entry.kind ∈ header.chunks.map ChunkEntry.kind := List.mem_map_of_mem hentry
  rw [hkinds] at hkind
  rcases ChunkKind.isImage_iff.mp himage with h | h <;> simp [h] at hkind

/-- Alpha planes are not always used. -/
theorem not_forall_usesAlpha :
    ¬ ∀ (config : Config) (data : Bytes) (header : FileHeader),
      (parse config data).result = .ok header →
        header.UsesImages data ∧ header.UsesAlpha data := by
  intro hall
  obtain ⟨header, h, hkinds, hplanes⟩ := exists_parse_alphaBeforeAnimation
  obtain ⟨-, chunks, file, htiles, -, -, hd, hheader⟩ := assembly_of_parse h
  have halpha : .alpha ∈ chunks.map Chunk.kind := by
    rw [hheader] at hkinds
    rw [← hd.kinds_eq, show file.chunks.map ChunkEntry.kind = _ from hkinds]
    decide
  obtain ⟨plane, hmem, hkind⟩ := List.mem_map.mp halpha
  obtain ⟨i, ⟨frame, hframe, hspan⟩, -⟩ :=
    (hall {} alphaBeforeAnimation header h).2 plane (.top htiles hmem) hkind
  have hnone : frame.alphaPayload ∈ header.frames.map Frame.alphaPayload :=
    List.mem_map_of_mem (List.mem_of_getElem? hframe)
  rw [hplanes, hspan, List.mem_singleton] at hnone
  cases hnone

end WebP
