import WebP.Proofs.Container.Acceptance

/-!
# Frames and the chunks that brought them

The frames of an accepted file are, in order, that of a top-level image, if there is one, and one
for each frame chunk. An image in front of an animation is not refused, and then it is the first
frame of the animation.

## Main definitions

* `WebP.FileHeader.stillChunks`, `WebP.FileHeader.frameChunks`: the chunks that bring a frame.
* `WebP.FileHeader.FramesAreFrameChunks`: each frame comes from the frame chunk at its place.

## Main results

* `WebP.exists_frames_eq_append`: the frames of an accepted file.
* `WebP.framesAreFrameChunks_iff`: when the frames are those of the frame chunks.
-/

namespace WebP

namespace FileHeader

/-- The top-level chunks that hold an image. -/
def stillChunks (header : FileHeader) : List ChunkEntry := header.chunks.filter (·.kind.isImage)

/-- The chunks that hold a frame of an animation. -/
def frameChunks (header : FileHeader) : List ChunkEntry := header.chunks.filter (·.kind == .frame)

/-- There is one frame for each frame chunk, the frame with an index lies inside the frame chunk
with that index, and no frame is that of a top-level image. -/
structure FramesAreFrameChunks (header : FileHeader) : Prop where
  frameCount_eq : header.frameCount = header.frameChunks.length
  within_chunk : ∀ (i : Nat) (frame : Frame) (entry : ChunkEntry), header.frame? i = some frame →
    header.frameChunks[i]? = some entry → frame.payload.Within entry.payloadSpan ∧
      ∀ span, frame.alphaPayload = some span → span.Within entry.payloadSpan
  not_still : ∀ frame ∈ header.frames, ∀ entry ∈ header.stillChunks,
    frame.payload ≠ entry.payloadSpan

end FileHeader

/-- In an allowed order, no image comes after a frame of an animation. -/
theorem Layout.image_before_frame {kinds : List ChunkKind} (h : Layout kinds) :
    kinds.Pairwise fun a b => a = .frame → ¬ b.isImage := by
  induction kinds using List.reverseRecOn with
  | nil => exact .nil
  | append_singleton kinds kind ih =>
    obtain ⟨hfront, hfollows⟩ := layout_concat_iff.mp h
    refine pairwise_concat_iff.mpr ⟨ih hfront, ?_⟩
    rintro _ hframe rfl himage
    have hanimation := hfront.frame_animated.mem hframe
    rcases ChunkKind.isImage_iff.mp himage with rfl | rfl
    · exact hfollows.2 hanimation
    · exact hfollows.2.1 hanimation

/-- The images stand in front of the frame chunks among the chunks that bring a frame. -/
theorem filter_bringsFrame {entries : List ChunkEntry}
    (h : (entries.map ChunkEntry.kind).Pairwise fun a b => a = .frame → ¬ b.isImage) :
    entries.filter (·.kind.bringsFrame) =
      entries.filter (·.kind.isImage) ++ entries.filter (·.kind == .frame) := by
  induction entries with
  | nil => rfl
  | cons entry entries ih =>
    rw [List.map_cons, List.pairwise_cons] at h
    obtain ⟨hhead, htail⟩ := h
    have hbrings : entry.kind.bringsFrame = (entry.kind.isImage || entry.kind == .frame) := rfl
    rw [List.filter_cons, List.filter_cons, List.filter_cons, ih htail, hbrings]
    by_cases himage : entry.kind.isImage
    · have hne : (entry.kind == .frame) = false := by
        rcases ChunkKind.isImage_iff.mp himage with hkind | hkind <;> rw [hkind] <;> rfl
      simp only [himage, hne, Bool.true_or, if_true, Bool.false_eq_true, if_false,
        List.cons_append]
    · by_cases hframe : entry.kind = .frame
      · -- no image follows a frame chunk, so there is none among the other entries
        have hnone : entries.filter (·.kind.isImage) = [] := by
          rw [List.filter_eq_nil_iff]
          exact fun e he => hhead e.kind (List.mem_map_of_mem he) hframe
        have heq : (entry.kind == .frame) = true := beq_iff_eq.mpr hframe
        simp only [Bool.eq_false_iff.mpr himage, hnone, heq, Bool.or_true, if_true,
          List.nil_append, Bool.false_eq_true, if_false]
      · have hne : (entry.kind == .frame) = false := beq_eq_false_iff_ne.mpr hframe
        simp only [himage, hne, Bool.or_self, Bool.false_eq_true, if_false]

variable {config : Config} {data : Bytes} {header : FileHeader}

/-- **The frames of an accepted file.** First comes the frame of a top-level image, if there is
one, and then those of the frame chunks. -/
theorem exists_frames_eq_append (h : (parse config data).result = .ok header) :
    ∃ stills frames, header.frames = stills ++ frames ∧
      List.Forall₂ (fun entry frame => frame.payload = entry.payloadSpan)
        header.stillChunks stills ∧
      List.Forall₂ (fun entry frame => frame.payload.Within entry.payloadSpan ∧
        ∀ span, frame.alphaPayload = some span → span.Within entry.payloadSpan)
        header.frameChunks frames := by
  obtain ⟨-, chunks, file, -, hgrammar, hd, rfl⟩ := describes_of_parse h
  change ∃ stills frames, file.frames = _ ∧
    List.Forall₂ _ (file.chunks.filter (·.kind.isImage)) _ ∧
    List.Forall₂ _ (file.chunks.filter (·.kind == .frame)) _
  have hkinds := hd.kinds_eq
  have hsplit : file.chunks.filter (·.kind.bringsFrame) = _ :=
    filter_bringsFrame (by rw [hkinds]; exact hgrammar.layout.image_before_frame)
  have hframes : List.Forall₂ (fun entry frame =>
      (entry.kind.isImage → frame.payload = entry.payloadSpan) ∧
      (entry.kind = .frame → frame.payload.Within entry.payloadSpan ∧
        ∀ span, frame.alphaPayload = some span → span.Within entry.payloadSpan))
      (file.chunks.filter (·.kind.bringsFrame)) file.frames := by
    rw [hd.chunks_eq, List.filter_map, List.forall₂_map_left_iff]
    exact hd.frames.imp fun _ _ hc => ⟨hc.still, hc.animated⟩
  rw [hsplit] at hframes
  have hstills := List.forall₂_take (file.chunks.filter (·.kind.isImage)).length hframes
  have hchunks := List.forall₂_drop (file.chunks.filter (·.kind.isImage)).length hframes
  rw [List.take_left] at hstills
  rw [List.drop_left] at hchunks
  refine ⟨_, _, (List.take_append_drop (file.chunks.filter (·.kind.isImage)).length _).symm,
    ?_, ?_⟩
  · have himage : ∀ entry ∈ file.chunks.filter (·.kind.isImage), entry.kind.isImage :=
      fun entry hentry => (List.mem_filter.mp hentry).2
    exact ((List.forall₂_and_left _ _).mpr ⟨himage, hstills⟩).imp
      fun entry frame hboth => hboth.2.1 hboth.1
  · have hframe : ∀ entry ∈ file.chunks.filter (·.kind == .frame), entry.kind = .frame :=
      fun entry hentry => eq_of_beq (List.mem_filter.mp hentry).2
    exact ((List.forall₂_and_left _ _).mpr ⟨hframe, hchunks⟩).imp
      fun entry frame hboth => hboth.2.2 hboth.1

/-- There are as many frames as top-level images and frame chunks. -/
theorem frameCount_eq_add (h : (parse config data).result = .ok header) :
    header.frameCount = header.stillChunks.length + header.frameChunks.length := by
  obtain ⟨stills, frames, hframes, hstills, hchunks⟩ := exists_frames_eq_append h
  rw [FileHeader.frameCount, hframes, List.length_append, hstills.length_eq, hchunks.length_eq]

/-- **When each frame comes from its frame chunk.** The frames of an accepted file are those of
its frame chunks exactly if no top-level chunk holds an image. -/
theorem framesAreFrameChunks_iff (h : (parse config data).result = .ok header) :
    header.FramesAreFrameChunks ↔ ∀ entry ∈ header.chunks, ¬ entry.kind.isImage := by
  constructor
  · intro hframes
    have hcount := frameCount_eq_add h
    rw [hframes.frameCount_eq, Nat.right_eq_add, List.length_eq_zero_iff] at hcount
    exact List.filter_eq_nil_iff.mp hcount
  · intro hnone
    have hstill : header.stillChunks = [] := List.filter_eq_nil_iff.mpr hnone
    obtain ⟨stills, frames, hframes, hstills, hchunks⟩ := exists_frames_eq_append h
    rw [hstill, List.forall₂_nil_left_iff] at hstills
    rw [hstills, List.nil_append] at hframes
    refine ⟨?_, ?_, ?_⟩
    · rw [FileHeader.frameCount, hframes, hchunks.length_eq]
    · intro i frame entry hframe hentry
      rw [FileHeader.frame?, hframes] at hframe
      obtain ⟨hi, rfl⟩ := List.getElem?_eq_some_iff.mp hentry
      obtain ⟨hj, rfl⟩ := List.getElem?_eq_some_iff.mp hframe
      exact hchunks.get hi hj
    · rw [hstill]
      exact fun _ _ _ h => absurd h List.not_mem_nil

/-- A file that announces an animation and has an image in front of its only frame chunk. -/
def imageBeforeAnimation : Bytes :=
  (ChunkHeader.mk .riff 88).encode ++ FourCC.webp.bytes ++
    (ChunkHeader.mk .vp8x 10).encode ++ [2, 0, 0, 0, 0, 0, 0, 0, 0, 0] ++
    (ChunkHeader.mk .vp8l 6).encode ++ [0x2f, 0, 0, 0, 0, 0] ++
    (ChunkHeader.mk .anim 6).encode ++ [0, 0, 0, 0, 0, 0] ++
    (ChunkHeader.mk .anmf 30).encode ++ [0, 0, 0, 0, 0, 0, 0, 0, 0, 0, 0, 0, 40, 0, 0, 0] ++
      (ChunkHeader.mk .vp8l 6).encode ++ [0x2f, 0, 0, 0, 0, 0]

/-- The file is accepted, with two frames for its single frame chunk. -/
theorem exists_parse_imageBeforeAnimation :
    ∃ header, (parse {} imageBeforeAnimation).result = .ok header ∧ header.isAnimated ∧
      header.frameCount = 2 ∧ header.frameChunks.length = 1 := by
  have hread : ((parse {} imageBeforeAnimation).result.toOption.map fun header =>
      (header.isAnimated, header.frameCount, header.frameChunks.length)) = some (true, 2, 1) := by
    decide +kernel
  obtain ⟨header, hheader, hvalues⟩ := Option.map_eq_some_iff.mp hread
  simp only [Prod.mk.injEq] at hvalues
  exact ⟨header, Outcome.toOption_result_eq_some_iff.mp hheader, hvalues⟩

/-- The file keeps an image that is not in a frame chunk, and so its frames are not those of its
frame chunks. -/
theorem framesAreFrameChunks_iff_imageBeforeAnimation :
    ∃ header, (parse {} imageBeforeAnimation).result = .ok header ∧
      (header.FramesAreFrameChunks ↔ ∀ entry ∈ header.chunks, ¬ entry.kind.isImage) := by
  obtain ⟨header, h, -⟩ := exists_parse_imageBeforeAnimation
  exact ⟨header, h, framesAreFrameChunks_iff h⟩

/-- The frames of an animation are not always those of its frame chunks. -/
theorem not_forall_framesAreFrameChunks :
    ¬ ∀ (config : Config) (data : Bytes) (header : FileHeader),
      (parse config data).result = .ok header → header.isAnimated →
        header.FramesAreFrameChunks := by
  intro hall
  obtain ⟨header, h, hanimated, hcount, hchunks⟩ := exists_parse_imageBeforeAnimation
  have heq := (hall {} imageBeforeAnimation header h hanimated).frameCount_eq
  rw [hcount, hchunks] at heq
  exact absurd heq (by decide)

end WebP
