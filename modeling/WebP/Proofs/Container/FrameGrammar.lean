import WebP.Proofs.Container.Layout
import WebP.Proofs.Container.Steps

/-!
# The grammar inside a frame

The chunks behind the header of a frame are in an allowed order, and each has a payload that its
kind asks for. Such a run of chunks, if there is an image among them, is what the reader of a
frame accepts. The proof keeps along what the reader has found among the chunks so far.

## Main definitions

* `WebP.FrameGrammar`: the chunks inside a frame of a given size.
* `WebP.FrameContent.Describes`: what has been found among given chunks.

## Main results

* `WebP.FrameContent.exists_read_iff`: which frames are read.
* `WebP.FrameContent.spans_within`: the image and the alpha plane of a frame lie inside its
  chunk.
-/

namespace WebP

open Outcome

theorem ImageFormat.forall_iff {p : ImageFormat → Prop} :
    (∀ format, p format) ↔ p .lossy ∧ p .lossless :=
  ⟨fun h => ⟨h .lossy, h .lossless⟩, fun h format => by cases format; exacts [h.1, h.2]⟩

/-- The payload of a chunk inside a frame of the given size is one that its kind asks for. -/
@[mk_iff]
structure Chunk.FitsFrame (size : Size) (part : Chunk) : Prop where
  alpha : part.kind = .alpha → AlphaInfo.Accepts part.payload
  image : ∀ format : ImageFormat, part.kind = format.kind → format.Accepts part.payload size

/-- The chunks inside a frame of the given size. -/
structure FrameGrammar (size : Size) (parts : List Chunk) : Prop where
  layout : FrameLayout (parts.map Chunk.kind)
  fits : ∀ part ∈ parts, part.FitsFrame size

theorem frameGrammar_nil (size : Size) : FrameGrammar size [] :=
  ⟨frameLayout_nil, fun _ h => absurd h List.not_mem_nil⟩

/-- The grammar inside a frame, one chunk at a time. -/
theorem frameGrammar_concat_iff {size : Size} {parts : List Chunk} {part : Chunk} :
    FrameGrammar size (parts ++ [part]) ↔ FrameGrammar size parts ∧
      FollowsInFrame (parts.map Chunk.kind) part.kind ∧ part.FitsFrame size := by
  constructor
  · rintro ⟨hlayout, hfits⟩
    rw [List.map_append, List.map_singleton, frameLayout_concat_iff] at hlayout
    obtain ⟨hfront, hlast⟩ := List.forall_mem_append.mp hfits
    exact ⟨⟨hlayout.1, hfront⟩, hlayout.2, hlast part (List.mem_singleton_self part)⟩
  · rintro ⟨⟨hlayout, hfront⟩, hfollows, hlast⟩
    refine ⟨?_, List.forall_mem_append.mpr ⟨hfront, List.forall_mem_singleton.mpr hlast⟩⟩
    rw [List.map_append, List.map_singleton, frameLayout_concat_iff]
    exact ⟨hlayout, hfollows⟩

namespace FrameContent

variable {config : Config} {size : Size} {content next : FrameContent} {parts : List Chunk}
  {part : Chunk}

/-- What has been found among the chunks `parts`. -/
structure Describes (config : Config) (parts : List Chunk) (content : FrameContent) : Prop where
  alpha_eq_none : content.alpha = none ↔ .alpha ∉ parts.map Chunk.kind
  image_eq_none : content.image = none ↔ ∀ k ∈ parts.map Chunk.kind, ¬ k.isImage
  alpha_eq_some : ∀ info span, content.alpha = some (info, span) →
    ∃ part ∈ parts, part.kind = .alpha ∧ (AlphaInfo.inspect part.payload).result = .ok info ∧
      span = part.payloadSpan
  image_eq_some : ∀ info span, content.image = some (info, span) →
    ∃ part ∈ parts, part.kind = info.format.kind ∧
      (ImageInfo.inspect config info.format part.payload).result = .ok info ∧
      span = part.payloadSpan

theorem describes_nil (config : Config) : Describes config [] {} where
  alpha_eq_none := by simp
  image_eq_none := by simp
  alpha_eq_some _ _ h := nomatch h
  image_eq_some _ _ h := nomatch h

/-- A chunk that tells nothing leaves the description true. -/
theorem Describes.skip (hd : Describes config parts content) (halpha : part.kind ≠ .alpha)
    (himage : ¬ part.kind.isImage) : Describes config (parts ++ [part]) content where
  alpha_eq_none := by
    rw [hd.alpha_eq_none, List.map_append, List.mem_append, List.map_singleton,
      List.mem_singleton, or_iff_left halpha.symm]
  image_eq_none := by
    rw [hd.image_eq_none, List.map_append, List.forall_mem_append, List.map_singleton,
      List.forall_mem_singleton, and_iff_left himage]
  alpha_eq_some info span h := by
    obtain ⟨found, hmem, hfound⟩ := hd.alpha_eq_some info span h
    exact ⟨found, List.mem_append_left _ hmem, hfound⟩
  image_eq_some info span h := by
    obtain ⟨found, hmem, hfound⟩ := hd.image_eq_some info span h
    exact ⟨found, List.mem_append_left _ hmem, hfound⟩

theorem Describes.addAlpha (hd : Describes config parts content) (hkind : part.kind = .alpha)
    (h : (content.addAlpha part).result = .ok next) : Describes config (parts ++ [part]) next := by
  obtain ⟨-, himage, info, hinfo, rfl⟩ := addAlpha_eq_ok_iff.mp h
  refine ⟨?_, ?_, ?_, ?_⟩
  · simp [hkind]
  · rw [List.map_append, List.forall_mem_append, List.map_singleton, List.forall_mem_singleton,
      and_iff_left (by simp [hkind, ChunkKind.isImage])]
    exact hd.image_eq_none
  · rintro info' span ⟨⟩
    exact ⟨part, by simp, hkind, hinfo, rfl⟩
  · intro info' span h'
    cases himage.symm.trans h'

theorem Describes.addImage (hd : Describes config parts content) (format : ImageFormat)
    (hkind : part.kind = format.kind)
    (h : (content.addImage config size format part).result = .ok next) :
    Describes config (parts ++ [part]) next := by
  obtain ⟨-, -, info, hinfo, -, rfl⟩ := addImage_eq_ok_iff.mp h
  have hformat := ImageInfo.format_of_inspect hinfo
  have hne : part.kind ≠ .alpha := by
    rw [hkind]
    cases format <;> exact ChunkKind.noConfusion
  refine ⟨?_, ?_, ?_, ?_⟩
  · simpa [hne.symm] using hd.alpha_eq_none
  · have himage : part.kind.isImage := by
      rw [hkind]
      cases format <;> rfl
    refine ⟨nofun, fun hnone => absurd himage (hnone part.kind ?_)⟩
    simp
  · intro info' span h'
    obtain ⟨found, hmem, hfound⟩ := hd.alpha_eq_some info' span h'
    exact ⟨found, List.mem_append_left _ hmem, hfound⟩
  · rintro info' span ⟨⟩
    rw [hformat]
    exact ⟨part, by simp, hkind, hinfo, rfl⟩

theorem Describes.add (hd : Describes config parts content)
    (h : (content.add config size part).result = .ok next) :
    Describes config (parts ++ [part]) next := by
  cases hkind : part.kind with
  | alpha =>
    rw [add_of_alpha hkind] at h
    exact hd.addAlpha hkind h
  | lossy =>
    have hformat : part.kind = ImageFormat.lossy.kind := hkind
    rw [add_of_image hformat] at h
    exact hd.addImage .lossy hformat h
  | lossless =>
    have hformat : part.kind = ImageFormat.lossless.kind := hkind
    rw [add_of_image hformat] at h
    exact hd.addImage .lossless hformat h
  | unknown name =>
    simp only [FrameContent.add, hkind, result_bind_eq_ok, result_emit, result_pure,
      Except.ok.injEq, exists_const, true_and] at h
    subst h
    exact hd.skip (by simp [hkind]) (by simp [hkind, ChunkKind.isImage])
  | animation | frame | exif | iccp | canvas | xmp =>
    rw [FrameContent.add, hkind] at h
    cases h

/-- A chunk is taken exactly if it may follow and has the payload that its kind asks for. -/
theorem Describes.exists_add_iff (hd : Describes config parts content) :
    (∃ next, (content.add config size part).result = .ok next) ↔
      FollowsInFrame (parts.map Chunk.kind) part.kind ∧ part.FitsFrame size := by
  obtain ⟨kind, offset, payload⟩ := part
  rw [Chunk.fitsFrame_iff]
  simp only [FrameContent.add, result_bind_eq_ok, result_emit, exists_const, true_and,
    ImageFormat.forall_iff, ImageFormat.kind]
  cases kind with
  | alpha =>
    simp [addAlpha_eq_ok_iff, hd.alpha_eq_none, hd.image_eq_none, FollowsInFrame,
      AlphaInfo.Accepts, and_assoc]
  | lossy =>
    simp [addImage_eq_ok_iff, hd.image_eq_none, FollowsInFrame,
      ImageFormat.accepts_iff config]
  | lossless =>
    simp [addImage_eq_ok_iff, hd.image_eq_none, hd.alpha_eq_none, FollowsInFrame,
      ImageFormat.accepts_iff config, and_assoc]
  | unknown name =>
    simp only [FollowsInFrame, result_bind_eq_ok, result_emit, result_pure, Except.ok.injEq,
      exists_const, true_and, exists_eq', reduceCtorEq, false_implies, and_self]
  | animation | frame | exif | iccp | canvas | xmp => simp [FollowsInFrame]

/-- Chunks are taken one after another exactly if they are in the grammar, and then they are
described. -/
theorem foldlM_add (config : Config) (size : Size) (parts : List Chunk) :
    ((∃ content, (parts.foldlM (add config size) {}).result = .ok content) ↔
      FrameGrammar size parts) ∧
    ∀ content, (parts.foldlM (add config size) {}).result = .ok content →
      Describes config parts content :=
  foldlM_spec (fun _ => True) (frameGrammar_nil size) (fun _ _ => frameGrammar_concat_iff)
    (describes_nil config) (fun _ _ _ _ _ hd => hd.exists_add_iff)
    (fun _ _ _ _ _ _ hd _ h => hd.add h) parts fun _ _ => trivial

theorem frame?_eq_some_iff {place : Placement} {duration : Nat} {frame : Frame} :
    content.frame? place duration = some frame ↔
      ∃ info span, content.image = some (info, span) ∧
        frame = { place with
          duration
          payload := span
          alphaPayload := content.alpha.map (·.2)
          image := info
          alpha := content.alpha.map (·.1) } := by
  simp only [frame?, Option.map_eq_some_iff, Prod.exists, @eq_comm _ frame]

section Read

variable {place : Placement} {duration : Nat} {frame : Frame} {chunk : Chunk}
  (hlt : chunk.payload.length < 2 ^ 32)
  (hlong : FrameHeader.encodedLength ≤ chunk.payload.length)

include hlt hlong

/-- **Which frames are read.** What is behind the header is a run of chunks in the grammar, and
there is an image. -/
theorem exists_read_iff (config : Config) (place : Placement) (duration : Nat) :
    (∃ frame, (read config place duration (chunk.children FrameHeader.encodedLength)).result =
        .ok frame) ↔
      ∃ parts, Tiles (chunk.offset + 24) (chunk.payload.drop FrameHeader.encodedLength) parts ∧
        FrameGrammar place.rect.size parts ∧ ∃ part ∈ parts, part.kind.isImage := by
  have himage {parts : List Chunk} {content : FrameContent}
      (hd : Describes config parts content) :
      (∃ frame, content.frame? place duration = some frame) ↔
        ∃ part ∈ parts, part.kind.isImage := by
    have hiff := not_congr hd.image_eq_none
    simp only [List.forall_mem_map, not_forall, not_not, exists_prop] at hiff
    rw [← hiff, ← ne_eq, Option.ne_none_iff_exists']
    simp only [frame?_eq_some_iff, Prod.exists]
    exact ⟨fun ⟨_, info, span, h, _⟩ => ⟨info, span, h⟩,
      fun ⟨info, span, h⟩ => ⟨_, info, span, h, rfl⟩⟩
  simp only [read_eq_ok_iff hlt hlong]
  constructor
  · rintro ⟨frame, parts, htiles, content, hfold, hframe⟩
    obtain ⟨hgrammar, hdescribes⟩ := foldlM_add config place.rect.size parts
    exact ⟨parts, htiles, hgrammar.mp ⟨content, hfold⟩,
      (himage (hdescribes content hfold)).mp ⟨frame, hframe⟩⟩
  · rintro ⟨parts, htiles, hparts, hpart⟩
    obtain ⟨hgrammar, hdescribes⟩ := foldlM_add config place.rect.size parts
    obtain ⟨content, hfold⟩ := hgrammar.mpr hparts
    obtain ⟨frame, hframe⟩ := (himage (hdescribes content hfold)).mpr hpart
    exact ⟨frame, parts, htiles, content, hfold, hframe⟩

/-- The image and the alpha plane of a frame lie inside its chunk. -/
theorem spans_within
    (h : (read config place duration (chunk.children FrameHeader.encodedLength)).result =
      .ok frame) :
    frame.payload.Within chunk.payloadSpan ∧
      ∀ span, frame.alphaPayload = some span → span.Within chunk.payloadSpan := by
  obtain ⟨parts, htiles, content, hfold, hframe⟩ := (read_eq_ok_iff hlt hlong).mp h
  have hd := (foldlM_add config place.rect.size parts).2 content hfold
  have hwithin : ∀ part ∈ parts, part.payloadSpan.Within chunk.payloadSpan := by
    intro part hpart
    obtain ⟨hstart, hstop⟩ := htiles.payloadSpan_within hpart
    rw [List.length_drop] at hstop
    constructor
    · change chunk.offset + 8 ≤ part.payloadSpan.start
      omega
    · change part.payloadSpan.stop ≤ chunk.offset + 8 + chunk.payload.length
      rw [FrameHeader.encodedLength] at hlong hstop
      omega
  obtain ⟨info, span, himage, rfl⟩ := frame?_eq_some_iff.mp hframe
  refine ⟨?_, ?_⟩
  · obtain ⟨part, hpart, -, -, rfl⟩ := hd.image_eq_some info span himage
    exact hwithin part hpart
  · intro alphaSpan halpha
    obtain ⟨⟨alphaInfo, found⟩, hfound, rfl⟩ := Option.map_eq_some_iff.mp halpha
    obtain ⟨part, hpart, -, -, rfl⟩ := hd.alpha_eq_some alphaInfo found hfound
    exact hwithin part hpart

/-- A frame stands where its header says. -/
theorem toPlacement_of_read
    (h : (read config place duration (chunk.children FrameHeader.encodedLength)).result =
      .ok frame) : frame.toPlacement = place := by
  obtain ⟨_, _, _, _, hframe⟩ := (read_eq_ok_iff hlt hlong).mp h
  obtain ⟨_, _, _, rfl⟩ := frame?_eq_some_iff.mp hframe
  rfl

end Read

end FrameContent

end WebP
