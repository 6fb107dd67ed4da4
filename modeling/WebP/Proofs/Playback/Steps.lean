import WebP.Proofs.Playback.Operations

/-!
# Driving a decoder

A decoder is driven by operations in any order. Each of them changes the attached file as a whole
or draws a frame on its canvas, and so the canvas is always one that belongs to the attached file
and to the settings of the decoder.

## Main definitions

* `WebP.Operation`, `WebP.Decoder.run`: driving a decoder.
* `WebP.Decoder.Reachable`: the decoder has come about by operations on a new one.
* `WebP.Decoder.KeepsTo`: the attached file is played back with the settings given at first.

## Main results

* `WebP.Decoder.eq_of_new`: what a new decoder is like.
* `WebP.Decoder.Reachable.keepsTo`: every reachable decoder keeps to its settings.
-/

namespace WebP

/-! ### Driving a decoder -/

/-- What a decoder can be asked for. -/
inductive Operation where
  | advance
  | nextFrame
  | resetIndex
  | releaseFrame (frame : PixelBuffer)
  | clear
  | attach (header : FileHeader) (data : Bytes)
  | setLayout (layout : ColorLayout)

namespace Decoder

variable {σ π ε : Type} [BufferPool π] [ToString ε]

/-- The decoder after an operation. -/
def apply (codec : Codec σ ε) (decoder : Decoder σ π) : Operation → Decoder σ π
  | .advance => decoder.advance
  | .nextFrame => (decoder.nextFrame codec).2
  | .resetIndex => decoder.resetIndex
  | .releaseFrame frame => decoder.releaseFrame frame
  | .clear => decoder.clear
  | .attach header data => (decoder.attach header data).2
  | .setLayout layout => decoder.setLayout layout

/-- The decoder after some operations, one after the other. -/
def run (codec : Codec σ ε) (decoder : Decoder σ π) (operations : List Operation) :
    Decoder σ π :=
  operations.foldl (apply codec) decoder

/-- The decoder has come about by operations on a new one with the settings `config`. -/
def Reachable (codec : Codec σ ε) (config : DecoderConfig) (decoder : Decoder σ π) : Prop :=
  ∃ state pool start operations,
    new? state pool config = .ok start ∧ decoder = start.run codec operations

end Decoder

/-! ### The settings of a decoder -/

/-- The settings of a new decoder, whose sample size is a power of two. -/
def DecoderConfig.rounded (config : DecoderConfig) : DecoderConfig :=
  { config with sampleSize := floorPowerOfTwo config.sampleSize }

/-- The compositor of the source is the one for its file, but for what has been drawn. -/
structure Source.BelongsTo (config : DecoderConfig) (source : Source) : Prop where
  emptied_eq : source.compositor.map Compositor.emptied =
    Decoder.compositorFor config source.header
  wellShaped : ∀ compositor ∈ source.compositor, compositor.WellShaped

theorem Source.BelongsTo.draw {config : DecoderConfig} {source : Source}
    (h : source.BelongsTo config) (place : Placement) (image : PixelBuffer) :
    (source.draw place image).BelongsTo config where
  emptied_eq := by
    rw [Source.draw, Option.map_map]
    exact h.emptied_eq
  wellShaped := by
    intro drawn hdrawn
    obtain ⟨compositor, hcompositor, rfl⟩ := Option.map_eq_some_iff.mp hdrawn
    exact (h.wellShaped compositor hcompositor).draw place image

/-- A file that is newly attached has the compositor for it. -/
theorem Source.belongsTo_compositorFor (config : DecoderConfig) (header : FileHeader)
    (data : Bytes) :
    Source.BelongsTo config ⟨header, data, Decoder.compositorFor config header⟩ := by
  have hunfold := Decoder.compositorFor.eq_def config header
  split at hunfold
  · rw [hunfold]
    refine ⟨hunfold.symm, ?_⟩
    rintro _ ⟨⟩
    exact Compositor.wellShaped_new _ _ _
  · rw [hunfold]
    refine ⟨hunfold.symm, ?_⟩
    rintro _ ⟨⟩

namespace Decoder

variable {σ π ε : Type} {config : DecoderConfig} {decoder : Decoder σ π}

/-- The decoder has the given settings, except perhaps for the layout, and so has the attached
file. -/
structure KeepsTo (config : DecoderConfig) (decoder : Decoder σ π) : Prop where
  config_eq : ∃ layout, decoder.config = { config with layout }
  source : ∀ source ∈ decoder.source, source.BelongsTo config

/-- A new decoder has no file, and the settings with the sample size rounded down. -/
theorem eq_of_new {state : σ} {pool : π} {start : Decoder σ π}
    (new : new? state pool config = .ok start) :
    start =
      { codec := state, pool := pool, config := config.rounded, layout := config.layout } := by
  unfold new? at new
  split at new
  · cases new
  · cases new
    rfl

theorem keepsTo_new {state : σ} {pool : π} {start : Decoder σ π}
    (h : new? state pool config = .ok start) : start.KeepsTo config.rounded := by
  rw [eq_of_new h]
  exact ⟨⟨config.layout, rfl⟩, fun _ hsource => nomatch hsource⟩

variable [BufferPool π] [ToString ε]

theorem KeepsTo.attach (h : decoder.KeepsTo config) (header : FileHeader) (data : Bytes) :
    (decoder.attach header data).2.KeepsTo config := by
  obtain ⟨layout, hconfig⟩ := h.config_eq
  rcases Nat.lt_or_ge data.length header.fileLength with short | complete
  · rw [decoder.attach_of_short short]
    exact ⟨h.config_eq, fun _ hsource => nomatch hsource⟩
  · rw [decoder.attach_of_complete complete]
    refine ⟨h.config_eq, ?_⟩
    rintro _ ⟨⟩
    have hsame : compositorFor decoder.config header = compositorFor config header := by
      rw [hconfig]
      rfl
    rw [hsame]
    exact Source.belongsTo_compositorFor config header data

theorem KeepsTo.nextFrame (h : decoder.KeepsTo config) (codec : Codec σ ε) :
    (decoder.nextFrame codec).2.KeepsTo config := by
  have hresponds := decoder.responds_nextFrame codec
  refine ⟨?_, ?_⟩
  · rw [hresponds.config_eq]
    exact h.config_eq
  · obtain hsame | ⟨source, place, image, hattached, hdrawn⟩ := hresponds.source_cases
    · rw [hsame]
      exact h.source
    · rw [hdrawn]
      rintro _ ⟨⟩
      exact (h.source source hattached).draw place image

/-- Every operation keeps to the settings. -/
theorem KeepsTo.apply (h : decoder.KeepsTo config) (codec : Codec σ ε) (operation : Operation) :
    (decoder.apply codec operation).KeepsTo config := by
  cases operation with
  | advance =>
    refine ⟨?_, ?_⟩
    · exact decoder.config_advance ▸ h.config_eq
    · exact decoder.source_advance ▸ h.source
  | nextFrame => exact h.nextFrame codec
  | resetIndex => exact ⟨h.config_eq, h.source⟩
  | releaseFrame frame => exact ⟨h.config_eq, h.source⟩
  | clear => exact ⟨h.config_eq, fun _ hsource => nomatch hsource⟩
  | attach header data => exact h.attach header data
  | setLayout layout =>
    obtain ⟨_, hconfig⟩ := h.config_eq
    exact ⟨⟨layout, by simp only [Decoder.apply, setLayout, hconfig]⟩, h.source⟩

/-- A decoder keeps to its settings, whatever it is asked for. -/
theorem Reachable.keepsTo {codec : Codec σ ε} (h : decoder.Reachable codec config) :
    decoder.KeepsTo config.rounded := by
  obtain ⟨state, pool, start, operations, hnew, rfl⟩ := h
  have hstart := keepsTo_new hnew
  clear hnew
  induction operations generalizing start with
  | nil => exact hstart
  | cons operation operations ih => exact ih _ (hstart.apply codec operation)

end Decoder

end WebP
