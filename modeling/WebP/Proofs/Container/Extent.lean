import WebP.Proofs.Container.Acceptance

/-!
# Sizes in an accepted file

The lengths of a canvas are stored less one, and the image of a frame, which no header lets be
empty, must have the size that the frame announces. So in an accepted file neither the canvas nor
a frame is empty, and each frame is as large as its image.

## Main definitions

* `WebP.Size.IsPositive`: a size that is not empty.
* `WebP.Frame.IsSized`: a frame that is as large as its image.

## Main results

* `WebP.isSized_of_parse`: the sizes in an accepted file.
-/

namespace WebP

open Outcome

/-- The size is not empty. -/
def Size.IsPositive (size : Size) : Prop := 0 < size.width ∧ 0 < size.height

/-- The frame is as large as its image, and not empty. -/
structure Frame.IsSized (frame : Frame) : Prop where
  size_eq : frame.rect.size = frame.image.size
  positive : frame.image.size.IsPositive

/-- An image whose headers can be read is not empty. -/
theorem ImageInfo.isPositive_of_inspect {config : Config} {format : ImageFormat} {payload : Bytes}
    {info : ImageInfo} (h : (inspect config format payload).result = .ok info) :
    info.size.IsPositive :=
  ((ImageFormat.accepts_iff config).mpr ⟨info, h, rfl⟩).size_pos

/-! ### Inside a frame -/

namespace FrameContent

variable {config : Config} {size : Size} {content next : FrameContent} {part : Chunk}

/-- The image, if it has been found, has the given size and is not empty. -/
def IsSized (size : Size) (content : FrameContent) : Prop :=
  ∀ image ∈ content.image, image.1.size = size ∧ image.1.size.IsPositive

theorem isSized_empty (size : Size) : ({} : FrameContent).IsSized size :=
  fun _ hnone => absurd hnone (Option.not_mem_none _)

theorem IsSized.addImage (format : ImageFormat)
    (h : (content.addImage config size format part).result = .ok next) : next.IsSized size := by
  obtain ⟨-, -, info, hinfo, hsize, rfl⟩ := addImage_eq_ok_iff.mp h
  rintro _ ⟨⟩
  exact ⟨hsize, ImageInfo.isPositive_of_inspect hinfo⟩

theorem IsSized.add (hs : content.IsSized size)
    (h : (content.add config size part).result = .ok next) : next.IsSized size := by
  cases hkind : part.kind with
  | alpha =>
    rw [add_of_alpha hkind] at h
    obtain ⟨-, -, info, -, rfl⟩ := addAlpha_eq_ok_iff.mp h
    exact hs
  | lossy =>
    have hformat : part.kind = ImageFormat.lossy.kind := hkind
    rw [add_of_image hformat] at h
    exact IsSized.addImage .lossy h
  | lossless =>
    have hformat : part.kind = ImageFormat.lossless.kind := hkind
    rw [add_of_image hformat] at h
    exact IsSized.addImage .lossless h
  | unknown name =>
    rw [FrameContent.add, hkind] at h
    cases h
    exact hs
  | animation | frame | exif | iccp | canvas | xmp =>
    rw [FrameContent.add, hkind] at h
    cases h

/-- A frame that is read is as large as its image. -/
theorem isSized_of_read {place : Placement} {duration : Nat} {frame : Frame} {chunk : Chunk}
    (hlt : chunk.payload.length < 2 ^ 32)
    (hlong : FrameHeader.encodedLength ≤ chunk.payload.length)
    (h : (read config place duration (chunk.children FrameHeader.encodedLength)).result =
      .ok frame) : frame.IsSized := by
  obtain ⟨parts, -, content, hfold, hframe⟩ := (read_eq_ok_iff hlt hlong).mp h
  have hs : content.IsSized place.rect.size :=
    foldlM_preserves (IsSized place.rect.size) (fun _ _ _ _ hs => hs.add) (isSized_empty _) hfold
  obtain ⟨info, span, himage, rfl⟩ := frame?_eq_some_iff.mp hframe
  obtain ⟨hsize, hpositive⟩ := hs _ himage
  exact ⟨hsize.symm, hpositive⟩

end FrameContent

/-! ### Among the chunks of a file -/

namespace Assembly

variable {config : Config} {file next : Assembly} {chunk : Chunk}

/-- The canvas, if it is known, is not empty, and each frame is as large as its image. -/
structure IsSized (file : Assembly) : Prop where
  canvas : ∀ size ∈ file.canvas, size.IsPositive
  frames : ∀ frame ∈ file.frames, frame.IsSized

theorem isSized_empty : ({} : Assembly).IsSized where
  canvas _ hnone := absurd hnone (Option.not_mem_none _)
  frames := List.forall_mem_nil _

theorem IsSized.concat (hs : file.IsSized) {frame : Frame} (hframe : frame.IsSized) :
    ∀ found ∈ file.frames ++ [frame], found.IsSized :=
  List.forall_mem_append.mpr ⟨hs.frames, List.forall_mem_singleton.mpr hframe⟩

theorem IsSized.addImage (hs : file.IsSized) (format : ImageFormat)
    (h : (file.addImage config format chunk).result = .ok next) : next.IsSized := by
  obtain ⟨-, -, -, info, hinfo, -, rfl⟩ := addImage_eq_ok_iff.mp h
  have hpositive := ImageInfo.isPositive_of_inspect hinfo
  refine ⟨?_, hs.concat ⟨rfl, hpositive⟩⟩
  intro size hsize
  change size ∈ if file.extended.isSome then file.canvas else some info.size at hsize
  split at hsize
  · exact hs.canvas size hsize
  · cases hsize
    exact hpositive

theorem IsSized.interpret (hs : file.IsSized) (hlt : chunk.payload.length < 2 ^ 32)
    (h : (file.interpret config chunk).result = .ok next) : next.IsSized := by
  rw [Assembly.interpret] at h
  cases hkind : chunk.kind with
  | canvas =>
    rw [hkind] at h
    obtain ⟨-, -, -, rfl⟩ := addCanvas_eq_ok_iff.mp h
    refine ⟨?_, hs.frames⟩
    rintro _ ⟨⟩
    exact ⟨(CanvasHeader.isStorable_decode _).width_pos,
      (CanvasHeader.isStorable_decode _).height_pos⟩
  | animation =>
    rw [hkind] at h
    obtain ⟨-, -, -, rfl⟩ := addAnimation_eq_ok_iff.mp h
    exact ⟨hs.canvas, hs.frames⟩
  | frame =>
    rw [hkind] at h
    obtain ⟨-, -, hlong, -, -, canvas, -, -, frame, hread, rfl⟩ := addFrame_eq_ok_iff.mp h
    exact ⟨hs.canvas, hs.concat (FrameContent.isSized_of_read hlt hlong hread)⟩
  | lossy =>
    rw [hkind] at h
    exact hs.addImage .lossy h
  | lossless =>
    rw [hkind] at h
    exact hs.addImage .lossless h
  | alpha =>
    rw [hkind] at h
    obtain ⟨-, -, -, -, info, -, rfl⟩ := addAlpha_eq_ok_iff.mp h
    exact ⟨hs.canvas, hs.frames⟩
  | iccp =>
    rw [hkind] at h
    obtain ⟨-, -, -, rfl⟩ := addProfile_eq_ok_iff.mp h
    exact ⟨hs.canvas, hs.frames⟩
  | exif | xmp | unknown _ =>
    rw [hkind] at h
    cases h
    exact ⟨hs.canvas, hs.frames⟩

theorem IsSized.add (hs : file.IsSized) (hlt : chunk.payload.length < 2 ^ 32)
    (h : (file.add config chunk).result = .ok next) : next.IsSized := by
  obtain ⟨told, htold, rfl⟩ := add_eq_ok_iff.mp h
  have htold := hs.interpret hlt htold
  exact ⟨htold.canvas, htold.frames⟩

end Assembly

/-- **Sizes in an accepted file.** The canvas is not empty, and each frame is as large as its
image, which is not empty either. -/
theorem isSized_of_parse {config : Config} {data : Bytes} {header : FileHeader}
    (accepted : (parse config data).result = .ok header) :
    header.canvas.IsPositive ∧ ∀ frame ∈ header.frames, frame.IsSized := by
  rw [result_parse, FileHeader.read_eq_ok_iff] at accepted
  obtain ⟨-, chunks, htiles, file, hfold, -, rfl⟩ := accepted
  have hs : file.IsSized :=
    foldlM_preserves Assembly.IsSized (fun _ hchunk _ _ hs => hs.add (htiles.length_lt hchunk))
      Assembly.isSized_empty hfold
  refine ⟨?_, hs.frames⟩
  change (file.canvas.getD ⟨1, 1⟩).IsPositive
  cases hcanvas : file.canvas with
  | none => exact ⟨Nat.one_pos, Nat.one_pos⟩
  | some size => exact hs.canvas size hcanvas

end WebP
