import WebP.Proofs.Container.FrameGrammar

/-!
# The grammar of a file

Which chunks a file may have, told about the whole list of them: their order, their payloads,
and that what the extended header announces is there. Nothing here mentions a reader or its
settings.

## Main definitions

* `WebP.extended?`: the extended header among the chunks of a file.
* `WebP.Chunk.FitsCanvas`: a frame that lies on a canvas and has an image of its own size.
* `WebP.Chunk.FitsFile`: a payload that the kind of its chunk asks for.
* `WebP.ChunkGrammar`: chunks in an allowed order, with the payloads that are asked for.
* `WebP.FileGrammar`: the chunks of a whole file.

## Main results

* `WebP.chunkGrammar_concat_iff`: the grammar of chunks, one chunk at a time.
-/

namespace WebP

/-- Whether a chunk of the kind brings a frame, as an image does and a frame of an animation. -/
def ChunkKind.bringsFrame (kind : ChunkKind) : Bool := kind.isImage || kind == .frame

/-- The extended header among the chunks of a file. -/
def extended? (chunks : List Chunk) : Option CanvasHeader :=
  (chunks.find? fun chunk => chunk.kind = .canvas).map fun chunk => .decode chunk.payload

/-- The chunk holds a frame that lies on the canvas, with an image of the size of the frame. -/
@[mk_iff]
structure Chunk.FitsCanvas (canvas : Size) (chunk : Chunk) : Prop where
  length_even : chunk.payload.length % 2 = 0
  length_ge : 16 ≤ chunk.payload.length
  x_le : (FrameHeader.decode chunk.payload).rect.x ≤ 2 ^ 24
  y_le : (FrameHeader.decode chunk.payload).rect.y ≤ 2 ^ 24
  within_canvas : (FrameHeader.decode chunk.payload).rect.FitsWithin canvas
  content : ∃ parts, Tiles (chunk.offset + 24) (chunk.payload.drop 16) parts ∧
    FrameGrammar (FrameHeader.decode chunk.payload).rect.size parts ∧
    ∃ part ∈ parts, part.kind.isImage

/-- The payload of a chunk is one that its kind asks for in a file with the extended header, if
there is one. -/
@[mk_iff]
structure Chunk.FitsFile (extended : Option CanvasHeader) (chunk : Chunk) : Prop where
  canvas : chunk.kind = .canvas → chunk.payload.length = 10
  animation : chunk.kind = .animation → chunk.payload.length = 6
  alpha : chunk.kind = .alpha → AlphaInfo.Accepts chunk.payload
  image : ∀ format : ImageFormat, chunk.kind = format.kind →
    ∃ size, format.Accepts chunk.payload size ∧
      ∀ header, extended = some header → size = header.canvas
  frame : chunk.kind = .frame →
    ∃ header, extended = some header ∧ chunk.FitsCanvas header.canvas

/-- Chunks in an allowed order, with the payloads that are asked for. -/
structure ChunkGrammar (chunks : List Chunk) : Prop where
  layout : Layout (chunks.map Chunk.kind)
  fits : ∀ chunk ∈ chunks, chunk.FitsFile (extended? chunks)

/-- The extended header announces exactly the metadata that is there, an animation only if it is
there, and several frames only if it announces an animation. -/
structure CanvasHeader.Announces (header : CanvasHeader) (kinds : List ChunkKind) : Prop where
  animation : header.flags.animated → .animation ∈ kinds ∧ .frame ∈ kinds
  exif : header.flags.exif ↔ .exif ∈ kinds
  xmp : header.flags.xmp ↔ .xmp ∈ kinds
  iccp : header.flags.iccp ↔ .iccp ∈ kinds
  single : header.flags.animated ∨ kinds.countP ChunkKind.bringsFrame ≤ 1

/-- The chunks of a whole file. -/
structure FileGrammar (chunks : List Chunk) : Prop extends ChunkGrammar chunks where
  framed : ∃ chunk ∈ chunks, chunk.kind.bringsFrame
  announced : ∀ header, extended? chunks = some header →
    header.Announces (chunks.map Chunk.kind)

/-! ### One more chunk -/

section Concat

variable {chunks : List Chunk} {chunk : Chunk}

theorem extended?_concat_of_ne (h : chunk.kind ≠ .canvas) :
    extended? (chunks ++ [chunk]) = extended? chunks := by
  rw [extended?, List.find?_append, List.find?_singleton]
  simp only [h, decide_false, Bool.false_eq_true, if_false, Option.or_none, extended?]

theorem extended?_eq_none_iff : extended? chunks = none ↔ .canvas ∉ chunks.map Chunk.kind := by
  rw [extended?, Option.map_eq_none_iff, List.find?_eq_none]
  simp only [decide_eq_true_eq, List.mem_map, not_exists, not_and]

theorem extended?_concat_canvas (h : .canvas ∉ chunks.map Chunk.kind)
    (hkind : chunk.kind = .canvas) :
    extended? (chunks ++ [chunk]) = some (.decode chunk.payload) := by
  have hnone := extended?_eq_none_iff.mpr h
  rw [extended?, Option.map_eq_none_iff] at hnone
  rw [extended?, List.find?_append, hnone, List.find?_singleton]
  simp only [hkind, decide_true, if_true, Option.none_or, Option.map_some]

/-- Only what brings a frame is compared with the extended header. -/
theorem Chunk.FitsFile.of_not_bringsFrame {a b : Option CanvasHeader} (h : chunk.FitsFile a)
    (hkind : ¬ chunk.kind.bringsFrame) : chunk.FitsFile b where
  canvas := h.canvas
  animation := h.animation
  alpha := h.alpha
  image format hformat := by
    refine absurd ?_ hkind
    rw [hformat]
    cases format <;> rfl
  frame hframe := by
    refine absurd ?_ hkind
    rw [hframe]
    rfl

/-- Behind an extended header that may come, nothing brings a frame yet. -/
theorem Layout.not_bringsFrame {kinds : List ChunkKind} (h : Layout kinds)
    (hcanvas : .canvas ∉ kinds) (himage : ∀ k ∈ kinds, ¬ k.isImage) {kind : ChunkKind}
    (hkind : kind ∈ kinds) : ¬ kind.bringsFrame := by
  have hframe : .frame ∉ kinds := fun hmem =>
    hcanvas (h.animation_extended.mem (h.frame_animated.mem hmem))
  rw [ChunkKind.bringsFrame, Bool.or_eq_true, not_or]
  refine ⟨himage kind hkind, fun hbeq => hframe ?_⟩
  rwa [← eq_of_beq hbeq]

/-- The payloads of given chunks are compared with the same extended header behind one more
chunk. -/
theorem fits_concat_iff (hlayout : Layout (chunks.map Chunk.kind))
    (hfollows : Follows (chunks.map Chunk.kind) chunk.kind) :
    (∀ c ∈ chunks ++ [chunk], c.FitsFile (extended? (chunks ++ [chunk]))) ↔
      (∀ c ∈ chunks, c.FitsFile (extended? chunks)) ∧ chunk.FitsFile (extended? chunks) := by
  rw [List.forall_mem_append, List.forall_mem_singleton]
  by_cases hkind : chunk.kind = .canvas
  · rw [hkind] at hfollows
    obtain ⟨hcanvas, himage⟩ := hfollows
    -- the extended header is new, but nothing so far is compared with it
    have hnone : ∀ c ∈ chunks, ¬ c.kind.bringsFrame := fun c hc =>
      hlayout.not_bringsFrame hcanvas himage (List.mem_map_of_mem hc)
    have hself : ¬ chunk.kind.bringsFrame := by
      rw [hkind]
      exact Bool.false_ne_true
    constructor
    · rintro ⟨hfront, hlast⟩
      exact ⟨fun c hc => (hfront c hc).of_not_bringsFrame (hnone c hc),
        hlast.of_not_bringsFrame hself⟩
    · rintro ⟨hfront, hlast⟩
      exact ⟨fun c hc => (hfront c hc).of_not_bringsFrame (hnone c hc),
        hlast.of_not_bringsFrame hself⟩
  · rw [extended?_concat_of_ne hkind]

theorem chunkGrammar_nil : ChunkGrammar [] :=
  ⟨layout_nil, fun _ h => absurd h List.not_mem_nil⟩

/-- **The grammar of chunks, one chunk at a time.** -/
theorem chunkGrammar_concat_iff :
    ChunkGrammar (chunks ++ [chunk]) ↔ ChunkGrammar chunks ∧
      Follows (chunks.map Chunk.kind) chunk.kind ∧ chunk.FitsFile (extended? chunks) := by
  constructor
  · rintro ⟨hlayout, hfits⟩
    rw [List.map_append, List.map_singleton, layout_concat_iff] at hlayout
    obtain ⟨hfront, hlast⟩ := (fits_concat_iff hlayout.1 hlayout.2).mp hfits
    exact ⟨⟨hlayout.1, hfront⟩, hlayout.2, hlast⟩
  · rintro ⟨⟨hlayout, hfront⟩, hfollows, hlast⟩
    refine ⟨?_, (fits_concat_iff hlayout hfollows).mpr ⟨hfront, hlast⟩⟩
    rw [List.map_append, List.map_singleton, layout_concat_iff]
    exact ⟨hlayout, hfollows⟩

end Concat

end WebP
