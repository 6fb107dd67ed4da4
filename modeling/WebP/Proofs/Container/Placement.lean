import WebP.Playback.Decoder
import WebP.Proofs.Container.Extent
import WebP.Proofs.Container.Frames
import WebP.Proofs.Container.Provenance

/-!
# Where the frames of an accepted file are

Offsets in the description of a file come from two walks, one over the chunks of the file and one
over the chunks inside a frame chunk that begins in the middle of the first. So a frame is followed
through both: the payload of a chunk stands in the file where the walk says, what is behind the
header of a frame stands there too, and the runs of chunks in both places are in order. Whoever
slices the input by these offsets gets the bytes that were looked at.

## Main definitions

* `WebP.Bytes.HasAt`: a part of a byte string, with the offset at which it stands.
* `WebP.Frame.spans`: the ranges of a file that a frame has its data from.
* `WebP.Frame.IsPlaced`: a frame that lies on its canvas and describes its own bytes.
* `WebP.DecodeRequest.IsInRange`: bytes that are enough for the slices of a request.

## Main results

* `WebP.Tiles.pairwise`: the chunks of a run stand one behind the other.
* `WebP.Frame.Shows.reads`: what is said of a frame is read again from its ranges.
* `WebP.frames_placed_of_parse`: the frames of an accepted file.
-/

namespace WebP

open Outcome

/-! ### Parts of a file -/

/-- The bytes `part` stand in `data` at `offset`. -/
structure Bytes.HasAt (data : Bytes) (offset : Nat) (part : Bytes) : Prop where
  offset_le : offset ≤ data.length
  found : ∃ back, data.drop offset = part ++ back

namespace Bytes.HasAt

variable {data part : Bytes} {offset : Nat}

theorem drop (h : data.HasAt offset part) {n : Nat} (hn : n ≤ part.length) :
    data.HasAt (offset + n) (part.drop n) := by
  obtain ⟨hle, back, hback⟩ := h
  have hlength := congrArg List.length hback
  rw [List.length_drop, List.length_append] at hlength
  refine ⟨by omega, back, ?_⟩
  rw [← List.drop_drop, hback, List.drop_append_of_le_length hn]

end Bytes.HasAt

/-- The chunks of a file stand behind its header. -/
theorem IsFramed.hasAt_chunks {data : Bytes} (h : IsFramed data) :
    data.HasAt 12 (data.slice ⟨12, data.declaredLength + 8⟩) where
  offset_le := Nat.le_trans (by decide) h.length_ge
  found := ⟨(data.drop 12).drop (data.declaredLength + 8 - 12), (List.take_append_drop _ _).symm⟩

namespace Tiles

variable {data bytes : Bytes} {offset : Nat} {chunks : List Chunk} {chunk : Chunk}

/-- The payload of a chunk of a run stands behind the header of the chunk. -/
theorem hasAt_payload (h : Tiles offset bytes chunks) (hdata : data.HasAt offset bytes)
    (hc : chunk ∈ chunks) : data.HasAt (chunk.offset + 8) chunk.payload := by
  obtain ⟨front, back, rfl, -, hoffset⟩ := h.exists_payload hc
  obtain ⟨hle, more, hmore⟩ := hdata.drop (n := front.length) (by simp)
  rw [List.drop_left] at hmore
  rw [hoffset]
  exact ⟨hle, back ++ more, by rw [hmore, List.append_assoc]⟩

/-- The chunks of a run stand one behind the other. -/
theorem pairwise (h : Tiles offset bytes chunks) :
    chunks.Pairwise fun a b => a.payloadSpan.stop ≤ b.offset := by
  induction h with
  | nil => exact .nil
  | @cons offset chunks name payload pad rest length_lt length_pad tail ih =>
    refine List.pairwise_cons.mpr ⟨fun later hlater => ?_, ih⟩
    have hstart : offset + 8 + payload.length + pad.length + 8 ≤ later.offset + 8 :=
      (tail.payloadSpan_within hlater).1
    change offset + 8 + payload.length ≤ later.offset
    omega
  | unpadded => exact List.pairwise_singleton _ _

end Tiles

/-! ### The data of one frame -/

/-- The ranges of the file that a frame has its data from. -/
def Frame.spans (frame : Frame) : List Span := frame.payload :: frame.alphaPayload.toList

/-- What is said of the image and of the alpha plane of a frame is read again from the bytes that
the frame points to, and the alpha plane is that of a lossy image and stands in front of it. -/
structure Frame.Reads (config : Config) (data : Bytes) (frame : Frame) : Prop where
  payload_le : frame.payload.start ≤ frame.payload.stop
  inspected : (ImageInfo.inspect config frame.image.format (data.slice frame.payload)).result =
    .ok frame.image
  alpha_iff : frame.alpha.isSome ↔ frame.alphaPayload.isSome
  alpha : ∀ info span, frame.alpha = some info → frame.alphaPayload = some span →
    span.start ≤ span.stop ∧ span.stop + 8 ≤ frame.payload.start ∧ frame.image.format = .lossy ∧
      (AlphaInfo.inspect (data.slice span)).result = .ok info

theorem Chunk.payloadSpan_le (chunk : Chunk) : chunk.payloadSpan.start ≤ chunk.payloadSpan.stop :=
  Nat.le_add_right _ _

section Shows

variable {config : Config} {data bytes : Bytes} {offset : Nat} {chunks : List Chunk}
  {frame : Frame}

/-- A frame that shows a picture among the chunks of a run points into the run. -/
theorem Frame.Shows.spans_within (h : frame.Shows config chunks)
    (htiles : Tiles offset bytes chunks) :
    ∀ span ∈ frame.spans, span.Within ⟨offset + 8, offset + bytes.length⟩ := by
  obtain ⟨plane, -, hspan, front, chunk, back, rfl, hpicture⟩ := h
  intro span hmem
  rcases List.mem_cons.mp hmem with rfl | hplane
  · rw [hpicture.span_eq]
    exact htiles.payloadSpan_within (List.mem_append_right _ (List.mem_cons_self ..))
  · rw [hspan] at hplane
    obtain ⟨⟨found, range⟩, rfl, rfl⟩ :=
      Option.map_eq_some_iff.mp (Option.mem_toList.mp hplane)
    obtain ⟨earlier, hearlier, -, -, rfl⟩ := hpicture.plane_among found range rfl
    exact htiles.payloadSpan_within (List.mem_append_left _ hearlier)

/-- A frame that shows a picture among the chunks of a run reads the bytes of that picture. -/
theorem Frame.Shows.reads (h : frame.Shows config chunks) (htiles : Tiles offset bytes chunks)
    (hdata : data.HasAt offset bytes) : frame.Reads config data := by
  obtain ⟨plane, halpha, hspan, front, chunk, back, rfl, hpicture⟩ := h
  have hmem : chunk ∈ front ++ chunk :: back := List.mem_append_right _ (List.mem_cons_self ..)
  have hslice : ∀ found ∈ front ++ chunk :: back, data.slice found.payloadSpan = found.payload :=
    fun _ => htiles.slice_payloadSpan hdata.found hdata.offset_le
  refine ⟨?_, ?_, ?_, ?_⟩
  · rw [hpicture.span_eq]
    exact chunk.payloadSpan_le
  · rw [hpicture.span_eq, hslice chunk hmem]
    exact hpicture.inspected
  · rw [halpha, hspan, Option.isSome_map, Option.isSome_map]
  · intro info span hinfo hspan'
    obtain ⟨⟨found, range⟩, rfl, rfl⟩ := Option.map_eq_some_iff.mp (halpha.symm.trans hinfo)
    obtain rfl : range = span := Option.some.inj (hspan.symm.trans hspan')
    obtain ⟨earlier, hearlier, -, hinspect, rfl⟩ := hpicture.plane_among found range rfl
    -- the plane is in front of the image, with at least the header of the image between them
    have horder : earlier.payloadSpan.stop ≤ chunk.offset :=
      (List.pairwise_append.mp htiles.pairwise).2.2 earlier hearlier chunk (List.mem_cons_self ..)
    refine ⟨earlier.payloadSpan_le, ?_, hpicture.lossy rfl, ?_⟩
    · rw [hpicture.span_eq]
      exact Nat.add_le_add_right horder 8
    · rw [hslice earlier (List.mem_append_left _ hearlier)]
      exact hinspect

/-- A frame points into the run of its chunk, wherever its image is. -/
theorem Frame.IsBroughtBy.spans_within {chunk : Chunk} (h : frame.IsBroughtBy config chunks chunk)
    (htiles : Tiles offset bytes chunks) (hc : chunk ∈ chunks) :
    ∀ span ∈ frame.spans, span.Within ⟨offset + 8, offset + bytes.length⟩ := by
  cases h with
  | still _ _ _ shows => exact shows.spans_within htiles
  | animated _ long _ _ parts tiles shows =>
    obtain ⟨hstart, hstop⟩ := htiles.payloadSpan_within hc
    intro span hspan
    obtain ⟨hlower, hupper⟩ := shows.spans_within tiles span hspan
    rw [List.length_drop] at hupper
    change offset + 8 ≤ chunk.offset + 8 at hstart
    change chunk.offset + 8 + chunk.payload.length ≤ offset + bytes.length at hstop
    rw [FrameHeader.encodedLength] at long hupper
    dsimp only at hlower hupper
    exact ⟨by dsimp only; omega, by dsimp only; omega⟩

/-- A frame reads the bytes of the file that it points to. -/
theorem Frame.IsBroughtBy.reads {chunk : Chunk} (h : frame.IsBroughtBy config chunks chunk)
    (htiles : Tiles offset bytes chunks) (hdata : data.HasAt offset bytes)
    (hc : chunk ∈ chunks) : frame.Reads config data := by
  cases h with
  | still _ _ _ shows => exact shows.reads htiles hdata
  | animated _ long _ _ parts tiles shows =>
    exact shows.reads tiles ((htiles.hasAt_payload hdata hc).drop long)

/-- The ranges of a frame end where its chunk ends. -/
theorem Frame.spans_stop_le {chunk : Chunk} (hkind : chunk.kind.bringsFrame)
    (hc : frame.ComesFrom chunk) (hreads : frame.Reads config data) :
    ∀ span ∈ frame.spans, span.stop ≤ chunk.payloadSpan.stop := by
  intro span hspan
  have hplane (found : Span) (h : found ∈ frame.alphaPayload.toList) :
      found.stop ≤ frame.payload.stop := by
    rw [Option.mem_toList] at h
    obtain ⟨info, hinfo⟩ := Option.isSome_iff_exists.mp
      (hreads.alpha_iff.mpr (Option.isSome_of_mem h))
    have hbefore := (hreads.alpha info found hinfo h).2.1
    have hpayload := hreads.payload_le
    omega
  have hpayload : frame.payload.stop ≤ chunk.payloadSpan.stop := by
    rcases (Bool.or_eq_true _ _).mp hkind with himage | hframe
    · exact Nat.le_of_eq (congrArg Span.stop (hc.still himage))
    · exact (hc.animated (eq_of_beq hframe)).1.2
  rcases List.mem_cons.mp hspan with rfl | h
  · exact hpayload
  · exact Nat.le_trans (hplane span h) hpayload

end Shows

/-- Only the first of the chunks that bring a frame may hold a still image. -/
theorem Layout.image_first {kinds : List ChunkKind} (h : Layout kinds) :
    kinds.Pairwise fun a b => a.bringsFrame → ¬ b.isImage := by
  induction kinds using List.reverseRecOn with
  | nil => exact .nil
  | append_singleton kinds kind ih =>
    obtain ⟨hfront, hfollows⟩ := layout_concat_iff.mp h
    refine pairwise_concat_iff.mpr ⟨ih hfront, fun earlier hmem hbrings himage => ?_⟩
    rcases (Bool.or_eq_true _ _).mp hbrings with hstill | hframe
    · rcases ChunkKind.isImage_iff.mp himage with rfl | rfl
      · exact hfollows.1 earlier hmem hstill
      · exact hfollows.1 earlier hmem hstill
    · exact (pairwise_concat_iff.mp h.image_before_frame).2 earlier hmem (eq_of_beq hframe) himage

/-! ### All frames of a file -/

/-- The frame with the given index lies on the canvas, at an even place, is as large as its image,
and describes bytes of the file behind the first chunk header. -/
structure Frame.IsPlaced (config : Config) (data : Bytes) (header : FileHeader) (index : Nat)
    (frame : Frame) : Prop extends frame.Reads config data where
  index_eq : frame.index = index
  x_even : 2 ∣ frame.rect.x
  y_even : 2 ∣ frame.rect.y
  within_canvas : frame.rect.FitsWithin header.canvas
  size_eq : frame.image.size = frame.rect.size
  spans_within : ∀ span ∈ frame.spans, span.Within ⟨20, header.fileLength⟩

/-- The bytes are enough for the slices that a request for the frame takes. -/
structure DecodeRequest.IsInRange (frame : Frame) (bytes : Bytes) : Prop where
  spans : ∀ span ∈ frame.spans, span.start ≤ span.stop ∧ span.stop ≤ bytes.length
  length_payload : (ofFrame frame bytes).payload.length =
    frame.payload.stop - frame.payload.start
  length_alpha : (ofFrame frame bytes).alpha.map List.length =
    frame.alphaPayload.map fun span => span.stop - span.start

theorem DecodeRequest.isInRange_of_spans {frame : Frame} {bytes : Bytes}
    (h : ∀ span ∈ frame.spans, span.start ≤ span.stop ∧ span.stop ≤ bytes.length) :
    IsInRange frame bytes where
  spans := h
  length_payload := Bytes.length_slice_of_le (h frame.payload (List.mem_cons_self ..)).2
  length_alpha := by
    rw [ofFrame, Option.map_map]
    refine Option.map_congr fun span hspan => ?_
    exact Bytes.length_slice_of_le
      (h span (List.mem_cons_of_mem _ (Option.mem_toList.mpr hspan))).2

theorem Frame.Reads.le_of_mem_spans {config : Config} {data : Bytes} {frame : Frame}
    (h : frame.Reads config data) {span : Span} (hspan : span ∈ frame.spans) :
    span.start ≤ span.stop := by
  rcases List.mem_cons.mp hspan with rfl | hplane
  · exact h.payload_le
  · rw [Option.mem_toList] at hplane
    obtain ⟨info, hinfo⟩ := Option.isSome_iff_exists.mp
      (h.alpha_iff.mpr (Option.isSome_of_mem hplane))
    exact (h.alpha info span hinfo hplane).1

/-- The corner of a frame is at an even place. -/
theorem Frame.IsBroughtBy.even {config : Config} {chunks : List Chunk} {chunk : Chunk}
    {frame : Frame} (h : frame.IsBroughtBy config chunks chunk) :
    2 ∣ frame.rect.x ∧ 2 ∣ frame.rect.y := by
  cases h with
  | still _ rect_eq =>
    rw [rect_eq]
    exact ⟨Nat.dvd_zero 2, Nat.dvd_zero 2⟩
  | animated _ _ rect_eq =>
    rw [rect_eq]
    exact ⟨Nat.dvd_mul_right .., Nat.dvd_mul_right ..⟩

/-- The two sides of a list of pairs, at one place. -/
theorem exists_getElem?_of_forall₂ {α β : Type} {R : α → β → Prop} {left : List α}
    {right : List β} (h : List.Forall₂ R left right) {i : Nat} {b : β}
    (hi : right[i]? = some b) : ∃ a, left[i]? = some a ∧ R a b := by
  obtain ⟨hlt, rfl⟩ := List.getElem?_eq_some_iff.mp hi
  have hlt' : i < left.length := by rwa [h.length_eq]
  exact ⟨left[i], List.getElem?_eq_getElem hlt', h.get hlt' hlt⟩

theorem mem_of_filter_getElem? {α : Type} {p : α → Bool} {items : List α} {i : Nat} {item : α}
    (h : (items.filter p)[i]? = some item) : item ∈ items ∧ p item :=
  List.mem_filter.mp (List.mem_of_getElem? h)

section Parse

variable {config : Config} {data : Bytes} {header : FileHeader}

theorem isPlaced_of_parse (accepted : (parse config data).result = .ok header) {i : Nat}
    {frame : Frame} (hi : header.frame? i = some frame) :
    frame.IsPlaced config data header i := by
  have hsized := (isSized_of_parse accepted).2 frame (List.mem_of_getElem? hi)
  obtain ⟨hframed, chunks, file, htiles, -, hd, ht, rfl⟩ := traces_of_parse accepted
  obtain ⟨chunk, hchunk, hbrought⟩ := exists_getElem?_of_forall₂ ht.frames hi
  have hmem := (mem_of_filter_getElem? hchunk).1
  have hreads := hbrought.reads htiles hframed.hasAt_chunks hmem
  have hspans := hbrought.spans_within htiles hmem
  obtain ⟨hx, hy⟩ := hbrought.even
  obtain ⟨canvas, hcanvas, hfits⟩ := ht.fits _ (List.mem_of_getElem? hi)
  refine ⟨hreads, hd.index_eq i _ hi, hx, hy, ?_, hsized.size_eq.symm, fun span hspan => ?_⟩
  · change frame.rect.FitsWithin (file.canvas.getD ⟨1, 1⟩)
    rwa [hcanvas]
  · obtain ⟨hlower, hupper⟩ := hspans span hspan
    rw [Bytes.length_slice_of_le hframed.complete] at hupper
    have hge := hframed.declared_ge
    refine ⟨hlower, ?_⟩
    change span.stop ≤ data.declaredLength + 8
    dsimp only at hupper
    omega

/-- Between any range of a frame and any range of a later frame there is at least the header of a
chunk. -/
theorem spans_separated_of_parse (accepted : (parse config data).result = .ok header) {i j : Nat}
    (hij : i < j) {earlier later : Frame} (hi : header.frame? i = some earlier)
    (hj : header.frame? j = some later) :
    ∀ a ∈ earlier.spans, ∀ b ∈ later.spans, a.stop + 8 ≤ b.start := by
  have hreads := (isPlaced_of_parse accepted hi).toReads
  obtain ⟨-, chunks, file, htiles, hgrammar, hd, -, rfl⟩ := traces_of_parse accepted
  obtain ⟨front, hfront, hearlier⟩ := exists_getElem?_of_forall₂ hd.frames hi
  obtain ⟨back, hback, hlater⟩ := exists_getElem?_of_forall₂ hd.frames hj
  have hbrings := (mem_of_filter_getElem? hfront).2
  have hfirst := hgrammar.layout.image_first
  rw [List.pairwise_map] at hfirst
  obtain ⟨horder, himage⟩ : front.payloadSpan.stop ≤ back.offset ∧
      (front.kind.bringsFrame → ¬ back.kind.isImage) := by
    obtain ⟨hlti, rfl⟩ := List.getElem?_eq_some_iff.mp hfront
    obtain ⟨hltj, rfl⟩ := List.getElem?_eq_some_iff.mp hback
    exact List.pairwise_iff_getElem.mp
      ((htiles.pairwise.and hfirst).filter (·.kind.bringsFrame)) i j hlti hltj hij
  -- the later one is no still image, so its ranges lie inside its own chunk
  have hframe := eq_of_beq
    (((Bool.or_eq_true _ _).mp (mem_of_filter_getElem? hback).2).resolve_left (himage hbrings))
  obtain ⟨hpayload, hplane⟩ := hlater.animated hframe
  intro a ha b hb
  have hstart : back.payloadSpan.start ≤ b.start := by
    rcases List.mem_cons.mp hb with rfl | hb
    · exact hpayload.1
    · exact (hplane b (Option.mem_toList.mp hb)).1
  calc a.stop + 8 ≤ front.payloadSpan.stop + 8 :=
        Nat.add_le_add_right (Frame.spans_stop_le hbrings hearlier hreads a ha) 8
    _ ≤ back.offset + 8 := Nat.add_le_add_right horder 8
    _ ≤ b.start := hstart

/-- Every range of a frame ends before any range of a later frame begins. -/
theorem spans_ordered_of_parse (accepted : (parse config data).result = .ok header) {i j : Nat}
    (hij : i < j) {earlier later : Frame} (hi : header.frame? i = some earlier)
    (hj : header.frame? j = some later) :
    ∀ a ∈ earlier.spans, ∀ b ∈ later.spans, a.stop ≤ b.start := fun a ha b hb =>
  Nat.le_of_add_right_le (spans_separated_of_parse accepted hij hi hj a ha b hb)

/-- **The frames of an accepted file.** The file is not longer than the input. Each frame is placed
and describes its own bytes, its ranges end before those of the next frame begin, and bytes that a
decoder accepts for the file are enough for each request. -/
theorem frames_placed_of_parse (accepted : (parse config data).result = .ok header) :
    header.fileLength ≤ data.length ∧
    (∀ i < header.frameCount, ∃ frame, header.frame? i = some frame ∧
      frame.IsPlaced config data header i ∧
      ∀ next, header.frame? (i + 1) = some next →
        ∀ a ∈ frame.spans, ∀ b ∈ next.spans, a.stop ≤ b.start) ∧
    ∀ (σ π : Type) [BufferPool π] (decoder : Decoder σ π) (bytes : Bytes),
      (decoder.attach header bytes).1.result = .ok () →
        ∀ frame ∈ header.frames, DecodeRequest.IsInRange frame bytes := by
  refine ⟨?_, fun i hi => ?_, fun σ π _ decoder bytes hattach frame hframe => ?_⟩
  · obtain ⟨hframed, -, -, -, -, -, rfl⟩ := describes_of_parse accepted
    exact hframed.complete
  · have hframe : header.frame? i = some header.frames[i] := List.getElem?_eq_getElem hi
    exact ⟨_, hframe, isPlaced_of_parse accepted hframe, fun next hnext =>
      spans_ordered_of_parse accepted (Nat.lt_succ_self i) hframe hnext⟩
  · obtain ⟨i, hi⟩ := List.mem_iff_getElem?.mp hframe
    have hplaced := isPlaced_of_parse accepted hi
    have henough : header.fileLength ≤ bytes.length := by
      by_contra hshort
      rw [Decoder.attach, if_pos (Nat.lt_of_not_le hshort)] at hattach
      cases hattach
    exact DecodeRequest.isInRange_of_spans fun span hspan =>
      ⟨hplaced.le_of_mem_spans hspan, Nat.le_trans (hplaced.spans_within span hspan).2 henough⟩

end Parse

/-- An animation of two frames, the first of which is lossy and has an alpha plane. -/
def alphaAnimation : Bytes :=
  (ChunkHeader.mk .riff 128).encode ++ FourCC.webp.bytes ++
    (ChunkHeader.mk .vp8x 10).encode ++ [0x12, 0, 0, 0, 0, 0, 0, 0, 0, 0] ++
    (ChunkHeader.mk .anim 6).encode ++ [0, 0, 0, 0, 0, 0] ++
    (ChunkHeader.mk .anmf 46).encode ++ [0, 0, 0, 0, 0, 0, 0, 0, 0, 0, 0, 0, 40, 0, 0, 0] ++
      (ChunkHeader.mk .alph 2).encode ++ [0, 255] ++
      (ChunkHeader.mk .vp8 12).encode ++ [0x30, 0, 0, 0x9d, 1, 0x2a, 1, 0, 1, 0, 0, 0] ++
    (ChunkHeader.mk .anmf 30).encode ++ [0, 0, 0, 0, 0, 0, 0, 0, 0, 0, 0, 0, 40, 0, 0, 0] ++
      (ChunkHeader.mk .vp8l 6).encode ++ [0x2f, 0, 0, 0, 0, 0]

/-- Both frames of the animation are placed. The alpha plane of the first one stands at offset 76
and its image at 86, and all of it is in front of the second one. -/
theorem frames_placed_of_parse_alphaAnimation :
    ∃ header first second, (parse {} alphaAnimation).result = .ok header ∧
      header.frame? 0 = some first ∧ header.frame? 1 = some second ∧
      first.spans = [⟨86, 98⟩, ⟨76, 78⟩] ∧ first.IsPlaced {} alphaAnimation header 0 ∧
      second.IsPlaced {} alphaAnimation header 1 ∧
      ∀ a ∈ first.spans, ∀ b ∈ second.spans, a.stop ≤ b.start := by
  have hread : ((parse {} alphaAnimation).result.toOption.map fun header =>
      header.frames.map Frame.spans) = some [[⟨86, 98⟩, ⟨76, 78⟩], [⟨130, 136⟩]] := by
    decide +kernel
  obtain ⟨header, hheader, hspans⟩ := Option.map_eq_some_iff.mp hread
  rw [toOption_result_eq_some_iff] at hheader
  obtain ⟨-, hplaced, -⟩ := frames_placed_of_parse hheader
  have hcount : header.frameCount = 2 := by
    rw [FileHeader.frameCount, ← List.length_map Frame.spans, hspans]
    rfl
  obtain ⟨first, hfirst, hfirst', hordered⟩ := hplaced 0 (by rw [hcount]; decide)
  obtain ⟨second, hsecond, hsecond', -⟩ := hplaced 1 (by rw [hcount]; decide)
  refine ⟨header, first, second, hheader, hfirst, hsecond, ?_, hfirst', hsecond',
    hordered second hsecond⟩
  have hvalue := congrArg (·[0]?) hspans
  rw [List.getElem?_map, show header.frames[0]? = some first from hfirst] at hvalue
  exact Option.some.inj hvalue

end WebP
