import WebP.Proofs.Container.FileSpec
import WebP.Proofs.Container.Seen

/-!
# Reading the frames that were written

The chunks of a picture are taken one by one, and what is then known of the frame is what the
writer was given: where the picture lies, and what its headers say. Frames of an animation are
taken in the order in which they were written.

## Main definitions

* `WebP.Picture.Found`: what a reader finds of a picture.

## Main results

* `WebP.Picture.Found.foldlM_addContent`: reading the picture of a frame.
* `WebP.FrameSpec.foldlM_add`: reading the frames of an animation.
-/

namespace WebP

open Outcome

/-! ### Pictures -/

namespace Picture

variable {config : Config} {picture : Picture} {offset : Nat} {size : Size} {info : ImageInfo}
  {found : Option (AlphaInfo × Span)}

/-- What is found of a picture that is written from an offset on. -/
structure Found (config : Config) (picture : Picture) (offset : Nat) (info : ImageInfo)
    (found : Option (AlphaInfo × Span)) : Prop where
  image : (ImageInfo.inspect config picture.format picture.payload).result = .ok info
  span : found.map (·.2) = picture.alphaSpan offset
  alpha : Option.Rel (fun plane info => (AlphaInfo.inspect plane).result = .ok info)
    picture.alpha? (found.map (·.1))
  lossy : picture.format = .lossless → found = none

/-- What is known of a picture that is accepted. -/
theorem IsValid.exists_found (h : picture.IsValid size) (config : Config) (offset : Nat) :
    ∃ info found, picture.Found config offset info found ∧ info.size = size := by
  obtain ⟨info, hinfo, hsize⟩ := (ImageFormat.accepts_iff config).mp h.image
  cases picture with
  | lossless payload => exact ⟨info, none, ⟨hinfo, rfl, .none, fun _ => rfl⟩, hsize⟩
  | lossy alpha payload =>
    cases alpha with
    | none => exact ⟨info, none, ⟨hinfo, rfl, .none, nofun⟩, hsize⟩
    | some plane =>
      obtain ⟨alphaInfo, halpha⟩ := h.alpha plane rfl
      exact ⟨info, some (alphaInfo, _), ⟨hinfo, rfl, .some halpha, nofun⟩, hsize⟩

/-- The chunks of a picture are its alpha plane, if there is one, and its bitstream. -/
theorem chunks_pieces (picture : Picture) (offset : Nat) :
    Piece.chunks offset picture.pieces =
      Piece.chunks offset (Piece.optional .alph picture.alpha?) ++
        [⟨picture.format.kind,
          offset + (Piece.write (Piece.optional .alph picture.alpha?)).length,
          picture.payload⟩] := by
  rw [pieces, Piece.chunks_append]
  cases picture <;> rfl

/-- In a frame, the alpha plane is kept until the image comes. -/
theorem Found.foldlM_addAlpha (h : picture.Found config offset info found) (size : Size) :
    ((Piece.chunks offset (Piece.optional .alph picture.alpha?)).foldlM
      (FrameContent.add config size) {}).result = .ok { alpha := found } := by
  obtain ⟨-, hspan, halpha, -⟩ := h
  rw [alphaSpan] at hspan
  cases hplane : picture.alpha? with
  | none =>
    rw [hplane, Option.map_none, Option.map_eq_none_iff] at hspan
    subst hspan
    rfl
  | some plane =>
    rw [hplane, Option.map_some, Option.map_eq_some_iff] at hspan
    obtain ⟨⟨alphaInfo, span⟩, rfl, rfl⟩ := hspan
    rw [hplane, Option.map_some, Option.rel_some_some] at halpha
    simp only [Piece.optional, Option.map_some, Option.toList_some, Piece.chunks,
      List.foldlM_cons, List.foldlM_nil, bind_pure]
    rw [FrameContent.add_of_alpha rfl, FrameContent.addAlpha_eq_ok_iff]
    exact ⟨rfl, rfl, alphaInfo, halpha, rfl⟩

/-- **Reading the picture of a frame.** -/
theorem Found.foldlM_addContent (h : picture.Found config offset info found) :
    ((Piece.chunks offset picture.pieces).foldlM
      (FrameContent.add config info.size) {}).result =
        .ok ⟨found, some (info, picture.payloadSpan offset)⟩ := by
  rw [chunks_pieces, foldlM_concat_eq_ok_iff]
  refine ⟨_, h.foldlM_addAlpha info.size, ?_⟩
  rw [FrameContent.add_of_image rfl, FrameContent.addImage_eq_ok_iff]
  exact ⟨rfl, h.lossy, info, h.image, rfl, rfl⟩

end Picture

/-- The frame that a reader makes of a shot and of what it finds of the picture. -/
def Shot.frame (shot : Shot) (info : ImageInfo) (found : Option (AlphaInfo × Span)) : Frame :=
  { shot.place with
    duration := shot.duration
    payload := shot.picture.payloadSpan shot.offset
    alphaPayload := found.map (·.2)
    image := info
    alpha := found.map (·.1) }

/-- The frame says what is shown in every file in which the picture stands. -/
theorem Picture.Found.isReadAs {config : Config} {shot : Shot} {info : ImageInfo}
    {found : Option (AlphaInfo × Span)} (h : shot.picture.Found config shot.offset info found)
    {data : Bytes} (hdata : shot.StandsIn data) :
    shot.IsReadAs config data (shot.frame info found) where
  place_eq := rfl
  duration_eq := rfl
  payload_eq := rfl
  alphaPayload_eq := h.span
  slice_payload := hdata.slice_payload
  slice_alphaPayload := by
    change (found.map (·.2)).map _ = _
    rw [h.span]
    exact hdata.slice_alpha
  image := h.image
  alpha := h.alpha

/-! ### The frames of an animation -/

namespace FrameSpec

variable {config : Config} {canvas : Size} {frame : FrameSpec}

/-- The header of a frame that lies on a canvas can be stored. -/
theorem IsValid.isStorable (h : frame.IsValid canvas) (hcanvas : canvas.IsStorable) :
    frame.header.IsStorable := by
  obtain ⟨hwidth, hheight⟩ := h.picture.image.size_pos
  obtain ⟨hright, hbottom⟩ := h.within_canvas
  have hw := hcanvas.width_le
  have hh := hcanvas.height_le
  rw [Rect.right] at hright
  rw [Rect.bottom] at hbottom
  exact
    { size := ⟨hwidth, by change frame.rect.width ≤ _; omega, hheight,
        by change frame.rect.height ≤ _; omega⟩
      x_even := h.x_even
      x_lt := by change frame.rect.x < _; omega
      y_even := h.y_even
      y_lt := by change frame.rect.y < _; omega
      duration_lt := h.duration_lt }

/-- Flags and back. -/
theorem placement_header (index : Nat) (frame : FrameSpec) :
    Assembly.placement index frame.header = ⟨index, frame.rect, frame.dispose, frame.blend⟩ := by
  obtain ⟨rect, duration, dispose, blend, picture⟩ := frame
  cases dispose <;> cases blend <;> rfl

/-- **Reading a frame.** -/
theorem IsValid.exists_add (h : frame.IsValid canvas) (hcanvas : canvas.IsStorable)
    (hlt : frame.piece.payload.length < 2 ^ 32) {file : Assembly} (hanimation : file.Has .animation)
    (hfile : file.canvas = some canvas) (config : Config) (offset : Nat) :
    ∃ result : Frame,
      (file.add config ⟨.frame, offset, frame.piece.payload⟩).result =
        .ok { file.entering [⟨.frame, offset, frame.piece.payload⟩] with
          frames := file.frames ++ [result] } ∧
      ∀ data, (frame.shot config file.frames.length offset).StandsIn data →
        (frame.shot config file.frames.length offset).IsReadAs config data result := by
  obtain ⟨info, found, hfound, hsize⟩ := h.picture.exists_found config (offset + 24)
  have hdecode : FrameHeader.decode frame.piece.payload = frame.header :=
    FrameHeader.decode_encode (h.isStorable hcanvas) _
  have hlength : frame.piece.payload.length =
      FrameHeader.encodedLength + (Piece.write frame.picture.pieces).length := by
    rw [piece, List.length_append, FrameHeader.length_encode]
  have hlong : FrameHeader.encodedLength ≤ frame.piece.payload.length := by omega
  have heven : frame.piece.payload.length % 2 = 0 := by
    rw [hlength, Nat.add_mod, Piece.length_write_even]
    rfl
  have hwithin := h.within_canvas
  have hx : frame.rect.x ≤ 2 ^ 24 :=
    Nat.le_trans (Nat.le_of_add_right_le hwithin.1) hcanvas.width_le
  have hy : frame.rect.y ≤ 2 ^ 24 :=
    Nat.le_trans (Nat.le_of_add_right_le hwithin.2) hcanvas.height_le
  have hdrop : frame.piece.payload.drop FrameHeader.encodedLength =
      Piece.write frame.picture.pieces := List.drop_left' (FrameHeader.length_encode _)
  have hparts : ∀ part ∈ frame.picture.pieces, part.payload.length < 2 ^ 32 := by
    intro part hpart
    have := Piece.length_payload_le_write hpart
    omega
  let result := (frame.shot config file.frames.length offset).frame info found
  refine ⟨result, ?_, fun data hdata => hfound.isReadAs hdata⟩
  rw [Assembly.add_eq_ok_iff]
  refine ⟨{ file with seen := file.seen.insert .frame, frames := file.frames ++ [result] },
    Assembly.addFrame_eq_ok_iff.mpr ⟨hanimation, heven, hlong, ?_⟩, rfl⟩
  rw [hdecode]
  refine ⟨hx, hy, canvas, hfile, hwithin, _, ?_, rfl⟩
  rw [FrameContent.read_eq_ok_iff hlt hlong, hdrop]
  have hfold := hfound.foldlM_addContent
  rw [hsize] at hfold
  refine ⟨_, Piece.tiles_chunks _ hparts, _, hfold, ?_⟩
  rw [placement_header]
  rfl

/-- **Reading the frames of an animation.** -/
theorem foldlM_add (config : Config) (hcanvas : canvas.IsStorable) {frames : List FrameSpec}
    (hvalid : ∀ frame ∈ frames, frame.IsValid canvas)
    (hlt : ∀ frame ∈ frames, frame.piece.payload.length < 2 ^ 32) (file : Assembly)
    (hanimation : file.Has .animation) (hfile : file.canvas = some canvas) (offset : Nat) :
    ∃ results : List Frame,
      ((Piece.chunks offset (frames.map piece)).foldlM (Assembly.add config) file).result =
        .ok { file.entering (Piece.chunks offset (frames.map piece)) with
          frames := file.frames ++ results } ∧
      List.Forall₂ (fun shot frame => ∀ data, shot.StandsIn data → shot.IsReadAs config data frame)
        (shots config file.frames.length offset frames) results := by
  induction frames generalizing file offset with
  | nil =>
    refine ⟨[], ?_, .nil⟩
    rw [List.append_nil, List.map_nil, Piece.chunks, Assembly.entering_nil]
    rfl
  | cons frame frames ih =>
    obtain ⟨hframe, hframes⟩ := List.forall_mem_cons.mp hvalid
    obtain ⟨hframelt, hframeslt⟩ := List.forall_mem_cons.mp hlt
    obtain ⟨result, hadd, hresult⟩ :=
      hframe.exists_add hcanvas hframelt hanimation hfile config offset
    let chunk : Chunk := ⟨.frame, offset, frame.piece.payload⟩
    let next := offset + frame.piece.bytes.length
    obtain ⟨results, hfold, hresults⟩ := ih hframes hframeslt
      { file.entering [chunk] with frames := file.frames ++ [result] }
      (Assembly.has_entering_iff.mpr (.inl hanimation)) hfile next
    refine ⟨result :: results, ?_, .cons hresult ?_⟩
    · have hentering : (file.entering [chunk]).entering (Piece.chunks next (frames.map piece)) =
          file.entering (Piece.chunks offset (frame.piece :: frames.map piece)) :=
        (Assembly.entering_append [chunk] _).symm
      rw [List.map_cons, ← hentering, Piece.chunks, List.foldlM_cons, result_bind_eq_ok]
      refine ⟨_, hadd, ?_⟩
      rw [hfold, List.append_assoc]
      rfl
    · rwa [List.length_append, List.length_singleton] at hresults

end FrameSpec

end WebP
