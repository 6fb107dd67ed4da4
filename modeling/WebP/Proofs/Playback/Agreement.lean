import WebP.Proofs.Playback.Steps

/-!
# Decoders that cannot be told apart

Two decoders of one codec may differ in their pools and in the state of the codec. If the codec
does not look at what a buffer held before, and its states are related or do not matter, neither
is ever seen: decoders that agree in the rest return the same frames, and agree after every step.

## Main definitions

* `WebP.Codec.DependsOnRequest`: a codec that has no memory.
* `WebP.Codec.Agree`: codecs that make the same of the same requests.
* `WebP.Decoder.Matches`: decoders with the same settings and the same selected frame.
* `WebP.Decoder.Agrees`: decoders that match, with one canvas.

## Main results

* `WebP.Decoder.Matches.decodeFrame_related`: the same pixels on the same canvas give the same
  frame.
* `WebP.Decoder.Agrees.nextFrame_related`: decoders that agree go on agreeing.
-/

namespace WebP

/-- Whether the codec succeeds, and what it then makes of a buffer of the shape of the image,
depends on nothing but the request. -/
def Codec.DependsOnRequest {σ ε : Type} (codec : Codec σ ε) : Prop :=
  ∀ (state₁ state₂ : σ) (request : DecodeRequest) (blank₁ blank₂ : PixelBuffer),
    blank₁.HasShape request.size.width request.size.height .argb8888 →
    blank₂.HasShape request.size.width request.size.height .argb8888 →
      (codec.decode state₁ request blank₁).1 = (codec.decode state₂ request blank₂).1 ∧
      ((codec.decode state₁ request blank₁).1 = .ok () →
        (codec.decode state₁ request blank₁).2.1 = (codec.decode state₂ request blank₂).2.1)

/-- Codecs whose states are related answer a request alike, whatever the buffers held before, and
their states are related afterwards. -/
def Codec.Agree {σ₁ σ₂ ε : Type} (Related : σ₁ → σ₂ → Prop) (codec₁ : Codec σ₁ ε)
    (codec₂ : Codec σ₂ ε) : Prop :=
  ∀ (state₁ : σ₁) (state₂ : σ₂) (request : DecodeRequest) (blank₁ blank₂ : PixelBuffer),
    Related state₁ state₂ →
    blank₁.HasShape request.size.width request.size.height .argb8888 →
    blank₂.HasShape request.size.width request.size.height .argb8888 →
      (codec₁.decode state₁ request blank₁).1 = (codec₂.decode state₂ request blank₂).1 ∧
      ((codec₁.decode state₁ request blank₁).1 = .ok () →
        (codec₁.decode state₁ request blank₁).2.1 = (codec₂.decode state₂ request blank₂).2.1) ∧
      Related (codec₁.decode state₁ request blank₁).2.2 (codec₂.decode state₂ request blank₂).2.2

/-- For a codec without memory any two states will do. -/
theorem Codec.DependsOnRequest.agree {σ ε : Type} {codec : Codec σ ε}
    (memoryless : codec.DependsOnRequest) : Codec.Agree (fun _ _ => True) codec codec := by
  intro state₁ state₂ request blank₁ blank₂ _ h₁ h₂
  obtain ⟨houtcome, himage⟩ := memoryless state₁ state₂ request blank₁ blank₂ h₁ h₂
  exact ⟨houtcome, himage, trivial⟩

namespace Decoder

/-- Codecs that agree make the same of a frame for both decoders. -/
theorem decoded_agree {σ₁ σ₂ π₁ π₂ ε : Type} [BufferPool π₁] [LawfulBufferPool π₁]
    [BufferPool π₂] [LawfulBufferPool π₂] {Related : σ₁ → σ₂ → Prop} {codec₁ : Codec σ₁ ε}
    {codec₂ : Codec σ₂ ε} (agree : Codec.Agree Related codec₁ codec₂) {first : Decoder σ₁ π₁}
    {second : Decoder σ₂ π₂} (states : Related first.codec second.codec) (data : Bytes)
    (frame : Frame) :
    (first.decoded codec₁ data frame).1 = (second.decoded codec₂ data frame).1 ∧
      ((first.decoded codec₁ data frame).1 = .ok () →
        (first.decoded codec₁ data frame).2.1 = (second.decoded codec₂ data frame).2.1) ∧
      Related (first.decoded codec₁ data frame).2.2 (second.decoded codec₂ data frame).2.2 :=
  agree _ _ _ _ _ states (first.hasShape_blankFor _) (second.hasShape_blankFor _)

variable {σ π₁ π₂ ε : Type}

/-- The decoders have the same settings, and the same frame is selected. -/
structure Matches (first : Decoder σ π₁) (second : Decoder σ π₂) : Prop where
  sampleSize_eq : first.config.sampleSize = second.config.sampleSize
  index_eq : first.index = second.index
  layout_eq : first.layout = second.layout

/-- The decoders match and play the same file, with the same canvas. -/
structure Agrees (first : Decoder σ π₁) (second : Decoder σ π₂) : Prop
    extends first.Matches second where
  source_eq : first.source = second.source

variable {first : Decoder σ π₁} {second : Decoder σ π₂}

theorem Agrees.advance (h : first.Agrees second) : first.advance.Agrees second.advance := by
  cases hfirst : first.source with
  | none =>
    have hsecond : second.source = none := h.source_eq.symm.trans hfirst
    simp only [Decoder.advance, hfirst, hsecond]
    exact h
  | some source =>
    have hsecond : second.source = some source := h.source_eq.symm.trans hfirst
    simp only [Decoder.advance, hfirst, hsecond, h.index_eq]
    exact ⟨⟨h.sampleSize_eq, rfl, h.layout_eq⟩, rfl⟩

variable [BufferPool π₁] [LawfulBufferPool π₁] [BufferPool π₂] [LawfulBufferPool π₂] [ToString ε]
  {codec : Codec σ ε} {frame : Frame}

/-- Decoders that match, and on whose canvases a frame leaves the same, return the same for that
frame, and the states of their codecs stay related. They agree once the frame is drawn, and also
if it fails and they agreed before. -/
theorem Matches.decodeFrame_related (h : first.Matches second) {Related : σ → σ → Prop}
    (agree : Codec.Agree Related codec codec) (states : Related first.codec second.codec)
    {source₁ source₂ : Source}
    (draw_eq : ∀ image, source₁.draw frame.toPlacement image =
      source₂.draw frame.toPlacement image) :
    (first.decodeFrame codec source₁ frame).1 = (second.decodeFrame codec source₂ frame).1 ∧
    Related (first.decodeFrame codec source₁ frame).2.codec
      (second.decodeFrame codec source₂ frame).2.codec ∧
    ((first.decodeFrame codec source₁ frame).1.result.isOk ∨ first.source = second.source →
      (first.decodeFrame codec source₁ frame).2.Agrees
        (second.decodeFrame codec source₂ frame).2) := by
  have hheader := congrArg Source.header (draw_eq {})
  have hdata := congrArg Source.data (draw_eq {})
  rw [Source.header_draw, Source.header_draw] at hheader
  rw [Source.data_draw, Source.data_draw] at hdata
  obtain ⟨houtcome, himage, hstates⟩ := decoded_agree agree states source₁.data frame
  rcases h₁ : first.decoded codec source₁.data frame with ⟨result, image, state₁⟩
  rcases h₂ : second.decoded codec source₁.data frame with ⟨result₂, image₂, state₂⟩
  rw [h₁, h₂] at houtcome himage hstates
  obtain rfl : result = result₂ := houtcome
  rw [hdata] at h₂
  cases result with
  | error e =>
    obtain ⟨pool₁, hfirst⟩ := decodeFrame_of_error h₁
    obtain ⟨pool₂, hsecond⟩ := decodeFrame_of_error h₂
    rw [hfirst, hsecond]
    refine ⟨rfl, hstates, ?_⟩
    rintro (hok | hsource)
    · cases hok
    · exact ⟨⟨h.sampleSize_eq, h.index_eq, h.layout_eq⟩, hsource⟩
  | ok =>
    obtain rfl : image = image₂ := himage rfl
    obtain ⟨pool₁, hfirst⟩ := decodeFrame_of_ok h₁
    obtain ⟨pool₂, hsecond⟩ := decodeFrame_of_ok h₂
    have hshape := second.hasShape_outputFor source₂ frame
    rw [← hheader, ← h.sampleSize_eq, ← h.layout_eq] at hshape
    have hview := (source₂.draw frame.toPlacement image).view_congr second.config.sampleSize image
      (first.hasShape_outputFor source₁ frame) hshape
    rw [hfirst, hsecond, draw_eq, h.sampleSize_eq, hview]
    exact ⟨rfl, hstates, fun _ => ⟨⟨h.sampleSize_eq, h.index_eq, h.layout_eq⟩, rfl⟩⟩

/-- For a codec without memory nothing need be known of its states. -/
theorem Matches.decodeFrame (h : first.Matches second) (memoryless : codec.DependsOnRequest)
    {source₁ source₂ : Source}
    (draw_eq : ∀ image, source₁.draw frame.toPlacement image =
      source₂.draw frame.toPlacement image) :
    (first.decodeFrame codec source₁ frame).1 = (second.decodeFrame codec source₂ frame).1 ∧
    ((first.decodeFrame codec source₁ frame).1.result.isOk ∨ first.source = second.source →
      (first.decodeFrame codec source₁ frame).2.Agrees
        (second.decodeFrame codec source₂ frame).2) := by
  obtain ⟨houtcome, -, hagrees⟩ := h.decodeFrame_related memoryless.agree trivial draw_eq
  exact ⟨houtcome, hagrees⟩

/-- **Agreement is kept.** Decoders that agree, and the states of whose codecs are related, return
the same for the selected frame, whether it can be decoded or not, and both is so afterwards. -/
theorem Agrees.nextFrame_related (h : first.Agrees second) {Related : σ → σ → Prop}
    (agree : Codec.Agree Related codec codec) (states : Related first.codec second.codec) :
    (first.nextFrame codec).1 = (second.nextFrame codec).1 ∧
      Related (first.nextFrame codec).2.codec (second.nextFrame codec).2.codec ∧
      (first.nextFrame codec).2.Agrees (second.nextFrame codec).2 := by
  cases hfirst : first.source with
  | none =>
    have hsecond : second.source = none := h.source_eq.symm.trans hfirst
    simp only [Decoder.nextFrame, hfirst, hsecond, true_and]
    exact ⟨states, ⟨h.sampleSize_eq, h.index_eq, h.layout_eq⟩, rfl⟩
  | some source =>
    have hsecond : second.source = some source := h.source_eq.symm.trans hfirst
    cases hselected : first.index.bind source.header.frame? with
    | none =>
      have hselected₂ : second.index.bind source.header.frame? = none := by
        rw [← h.index_eq, hselected]
      simp only [Decoder.nextFrame, hfirst, hsecond, hselected, hselected₂, true_and]
      exact ⟨states, ⟨h.sampleSize_eq, h.index_eq, h.layout_eq⟩, rfl⟩
    | some frame =>
      have hselected₂ : second.index.bind source.header.frame? = some frame := by
        rw [← h.index_eq, hselected]
      rw [nextFrame_of_frame hfirst hselected, nextFrame_of_frame hsecond hselected₂]
      obtain ⟨houtcome, hstates, hagrees⟩ :=
        h.toMatches.decodeFrame_related agree states fun _ => rfl
      exact ⟨houtcome, hstates, hagrees (.inr h.source_eq)⟩

/-- Decoders of a codec without memory that agree go on agreeing. -/
theorem Agrees.nextFrame (h : first.Agrees second) (memoryless : codec.DependsOnRequest) :
    (first.nextFrame codec).1 = (second.nextFrame codec).1 ∧
      (first.nextFrame codec).2.Agrees (second.nextFrame codec).2 := by
  obtain ⟨houtcome, -, hagrees⟩ := h.nextFrame_related memoryless.agree trivial
  exact ⟨houtcome, hagrees⟩

end Decoder

end WebP
