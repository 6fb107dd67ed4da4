import Mathlib.Logic.Function.Iterate
import WebP.Proofs.Container.Acceptance
import WebP.Proofs.Playback.Agreement

/-!
# Playback does not depend on the past

A decoder may have played other files, or this one in another order, some frames twice and some
not at all; the codec may have failed; the layout may have been changed to and fro. None of it is
left once the first frame of the attached file has been returned, since that frame is drawn on a
transparent canvas.

## Main definitions

* `WebP.Decoder.round`: returning a frame and selecting the next one.
* `WebP.Decoder.outcomeAfter`: what is returned some frames later.
* `WebP.Decoder.IsAt`: the decoder keeps to its settings, and a frame of a file is selected.

## Main results

* `WebP.Decoder.outcomeAfter_eq_of_reachable`: what is returned from the first frame on depends
  neither on what the decoder did before nor on how often the animation was played.
-/

namespace WebP

/-- The first frame leaves the same on every canvas for its file. -/
theorem Source.BelongsTo.draw_first {config : DecoderConfig} {source₁ source₂ : Source}
    (h₁ : source₁.BelongsTo config) (h₂ : source₂.BelongsTo config)
    (header_eq : source₁.header = source₂.header) (data_eq : source₁.data = source₂.data)
    {place : Placement} (first : place.index = 0) (image : PixelBuffer) :
    source₁.draw place image = source₂.draw place image := by
  have hsame := h₁.emptied_eq.trans ((congrArg _ header_eq).trans h₂.emptied_eq.symm)
  have hshape₁ := h₁.wellShaped
  have hshape₂ := h₂.wellShaped
  obtain ⟨header, data, compositor₁⟩ := source₁
  obtain ⟨_, _, compositor₂⟩ := source₂
  cases header_eq
  cases data_eq
  cases compositor₁ with
  | none =>
    rw [Option.map_none, eq_comm, Option.map_eq_none_iff] at hsame
    cases hsame
    rfl
  | some compositor₁ =>
    rw [Option.map_some, eq_comm, Option.map_eq_some_iff] at hsame
    obtain ⟨compositor₂, rfl, hemptied⟩ := hsame
    simp only [Source.draw, Option.map_some,
      Compositor.draw_first (hshape₁ _ rfl) (hshape₂ _ rfl) hemptied.symm first]

namespace Decoder

section Rounds

variable {σ π ε : Type} [BufferPool π] [ToString ε] {codec : Codec σ ε} {config : DecoderConfig}
  {header : FileHeader} {data : Bytes} {layout : ColorLayout} {i : Nat} {decoder : Decoder σ π}

/-- The decoder after it has returned the selected frame and selected the next one. -/
def round (codec : Codec σ ε) (decoder : Decoder σ π) : Decoder σ π :=
  (decoder.nextFrame codec).2.advance

/-- What the decoder returns for the frame that comes `n` frames after the selected one, after
it has returned the frames in between. -/
def outcomeAfter (codec : Codec σ ε) (decoder : Decoder σ π) (n : Nat) :
    Outcome (Failure ε) PixelBuffer :=
  (((round codec)^[n] decoder).nextFrame codec).1

/-- The file is attached to the decoder. -/
def Plays (header : FileHeader) (data : Bytes) (decoder : Decoder σ π) : Prop :=
  decoder.source.map (fun source => (source.header, source.data)) = some (header, data)

instance : Decidable (decoder.Plays header data) :=
  inferInstanceAs (Decidable (_ = _))

omit [BufferPool π] in
theorem Plays.exists_source (h : decoder.Plays header data) :
    ∃ compositor, decoder.source = some ⟨header, data, compositor⟩ := by
  obtain ⟨⟨_, _, compositor⟩, hsource, hfile⟩ := Option.map_eq_some_iff.mp h
  cases hfile
  exact ⟨compositor, hsource⟩

/-- The decoder keeps to its settings, and the frame `i` of a file is selected. -/
structure IsAt (config : DecoderConfig) (header : FileHeader) (data : Bytes)
    (layout : ColorLayout) (i : Nat) (decoder : Decoder σ π) : Prop where
  keepsTo : decoder.KeepsTo config
  plays : decoder.Plays header data
  layout_eq : decoder.layout = layout
  index_eq : decoder.index = some i

namespace IsAt

/-- The same frame is selected after it has been asked for. -/
theorem nextFrame (h : decoder.IsAt config header data layout i) (codec : Codec σ ε) :
    (decoder.nextFrame codec).2.IsAt config header data layout i := by
  have hresponds := decoder.responds_nextFrame codec
  exact ⟨h.keepsTo.nextFrame codec, hresponds.file_eq.trans h.plays,
    hresponds.layout_eq.trans h.layout_eq, hresponds.index_eq.trans h.index_eq⟩

theorem advance (h : decoder.IsAt config header data layout i) (codec : Codec σ ε)
    (nonempty : 0 < header.frameCount) :
    decoder.advance.IsAt config header data layout ((i + 1) % header.frameCount) := by
  have hkeeps := h.keepsTo.apply codec .advance
  obtain ⟨compositor, hattached⟩ := h.plays.exists_source
  simp only [apply, Decoder.advance, hattached, h.index_eq, if_neg (Nat.ne_of_gt nonempty)]
    at hkeeps ⊢
  exact ⟨hkeeps, rfl, h.layout_eq, rfl⟩

/-- After `n` frames the one that is `n` places on is selected, counted round and round. -/
theorem iterate_round (h : decoder.IsAt config header data layout i) (codec : Codec σ ε)
    (selected : i < header.frameCount) (n : Nat) :
    ((round codec)^[n] decoder).IsAt config header data layout ((i + n) % header.frameCount) := by
  have hpos : 0 < header.frameCount := Nat.zero_lt_of_lt selected
  induction n with
  | zero =>
    rw [Nat.add_zero, Nat.mod_eq_of_lt selected]
    exact h
  | succ n ih =>
    rw [Function.iterate_succ_apply', ← Nat.add_assoc, ← Nat.mod_add_mod]
    exact (ih.nextFrame codec).advance codec hpos

end IsAt

end Rounds

variable {σ π₁ π₂ ε : Type} [BufferPool π₁] [LawfulBufferPool π₁] [BufferPool π₂]
  [LawfulBufferPool π₂] [ToString ε] {codec : Codec σ ε} {config : DecoderConfig}
  {header : FileHeader} {data : Bytes} {layout : ColorLayout}
  {first : Decoder σ π₁} {second : Decoder σ π₂}

/-- Decoders that agree return the same from then on. -/
theorem Agrees.outcomeAfter_eq (h : first.Agrees second) (memoryless : codec.DependsOnRequest)
    (n : Nat) : first.outcomeAfter codec n = second.outcomeAfter codec n := by
  induction n generalizing first second with
  | zero => exact (h.nextFrame memoryless).1
  | succ n ih => exact ih (h.nextFrame memoryless).2.advance

/-- At the first frame of a file decoders return the same, and agree if that frame can be
decoded. -/
theorem IsAt.nextFrame_first (h₁ : first.IsAt config header data layout 0)
    (h₂ : second.IsAt config header data layout 0) (memoryless : codec.DependsOnRequest)
    {frame : Frame} (hframe : header.frame? 0 = some frame) (hindex : frame.index = 0) :
    (first.nextFrame codec).1 = (second.nextFrame codec).1 ∧
      ((first.nextFrame codec).1.result.isOk →
        (first.nextFrame codec).2.Agrees (second.nextFrame codec).2) := by
  have hmatches : first.Matches second := by
    obtain ⟨_, hconfig₁⟩ := h₁.keepsTo.config_eq
    obtain ⟨_, hconfig₂⟩ := h₂.keepsTo.config_eq
    refine ⟨?_, h₁.index_eq.trans h₂.index_eq.symm, h₁.layout_eq.trans h₂.layout_eq.symm⟩
    rw [hconfig₁, hconfig₂]
  obtain ⟨_, hsource₁⟩ := h₁.plays.exists_source
  obtain ⟨_, hsource₂⟩ := h₂.plays.exists_source
  have hselected₁ : first.index.bind header.frame? = some frame := by
    rw [h₁.index_eq, Option.bind_some, hframe]
  have hselected₂ : second.index.bind header.frame? = some frame := by
    rw [h₂.index_eq, Option.bind_some, hframe]
  rw [nextFrame_of_frame hsource₁ hselected₁, nextFrame_of_frame hsource₂ hselected₂]
  obtain ⟨houtcome, hagrees⟩ := hmatches.decodeFrame memoryless fun image =>
    (h₁.keepsTo.source _ hsource₁).draw_first (h₂.keepsTo.source _ hsource₂) rfl rfl hindex image
  exact ⟨houtcome, fun hok => hagrees (.inl hok)⟩

/-- From a first frame on that can be decoded, decoders return the same. -/
theorem IsAt.outcomeAfter_eq (h₁ : first.IsAt config header data layout 0)
    (h₂ : second.IsAt config header data layout 0) (memoryless : codec.DependsOnRequest)
    {frame : Frame} (hframe : header.frame? 0 = some frame) (hindex : frame.index = 0)
    (decodes : (first.nextFrame codec).1.result.isOk) (n : Nat) :
    first.outcomeAfter codec n = second.outcomeAfter codec n := by
  obtain ⟨houtcome, hagrees⟩ := h₁.nextFrame_first h₂ memoryless hframe hindex
  cases n with
  | zero => exact houtcome
  | succ n => exact (hagrees decodes).advance.outcomeAfter_eq memoryless n

/-- **Playback does not depend on the past.** Let two decoders be made with the same settings, for
a codec without memory, and driven by any operations until both play the same accepted file in
the same layout and have its first frame selected. If that frame can be decoded, then both return
the same for it and for every frame after it. So each time the animation is played its frames are
the same. -/
theorem outcomeAfter_eq_of_reachable (memoryless : codec.DependsOnRequest) {parsing : Config}
    (accepted : (parse parsing data).result = .ok header)
    (reachable₁ : first.Reachable codec config) (reachable₂ : second.Reachable codec config)
    (plays₁ : first.Plays header data) (plays₂ : second.Plays header data)
    (layout_eq : first.layout = second.layout)
    (selected₁ : first.index = some 0) (selected₂ : second.index = some 0)
    (decodes : (first.nextFrame codec).1.result.isOk) :
    (∀ n, first.outcomeAfter codec n = second.outcomeAfter codec n) ∧
      ∀ loops n, first.outcomeAfter codec (loops * header.frameCount + n) =
        first.outcomeAfter codec n := by
  have h₁ : first.IsAt config.rounded header data second.layout 0 :=
    ⟨reachable₁.keepsTo, plays₁, layout_eq, selected₁⟩
  have h₂ : second.IsAt config.rounded header data second.layout 0 :=
    ⟨reachable₂.keepsTo, plays₂, rfl, selected₂⟩
  obtain ⟨frame, hframe⟩ : ∃ frame, header.frame? 0 = some frame := by
    rw [← Option.ne_none_iff_exists']
    intro hnone
    obtain ⟨compositor, hattached⟩ := plays₁.exists_source
    simp only [nextFrame, hattached, selected₁, Option.bind_some, hnone] at decodes
    cases decodes
  have hindex : frame.index = 0 := by
    obtain ⟨-, chunks, file, -, -, hdescribes, rfl⟩ := describes_of_parse accepted
    exact hdescribes.index_eq 0 frame hframe
  refine ⟨h₁.outcomeAfter_eq h₂ memoryless hframe hindex decodes, ?_⟩
  intro loops n
  have hlater := h₁.iterate_round codec (List.getElem?_eq_some_iff.mp hframe).1
    (loops * header.frameCount)
  rw [Nat.zero_add, Nat.mul_mod_left] at hlater
  rw [outcomeAfter, Nat.add_comm, Function.iterate_add_apply]
  exact (h₁.outcomeAfter_eq hlater memoryless hframe hindex decodes n).symm

end Decoder

/-- What is read, if anything is, can be had without a proof of it. -/
theorem Outcome.result_eq_ok_getD {ε α : Type} [Inhabited α] {x : Outcome ε α}
    (h : x.result.toOption.isSome) : x.result = .ok (x.result.toOption.getD default) := by
  obtain ⟨a, ha⟩ := Option.isSome_iff_exists.mp h
  rw [ha, Option.getD_some]
  exact toOption_result_eq_some_iff.mp ha

/-! ### A codec that counts -/

/-- A codec that counts what it is asked for and paints each image in a colour of its own. It does
not know images of more than two pixels. -/
def countingCodec : Codec Nat String where
  decode calls request blank :=
    if 2 < request.size.area then
      (.error "too large", blank, calls + 1)
    else
      (.ok (), blank.fill (UInt32.ofNat (2 ^ 31 + 100 * request.index)), calls + 1)

theorem dependsOnRequest_countingCodec : countingCodec.DependsOnRequest := by
  intro state₁ state₂ request blank₁ blank₂ hshape₁ hshape₂
  unfold countingCodec
  dsimp only
  split
  · exact ⟨rfl, fun h => nomatch h⟩
  · exact ⟨rfl, fun _ => hshape₁.fill_congr hshape₂ _⟩

/-- An animation whose second frame covers half of the first one. -/
def blinking : Bytes :=
  (ChunkHeader.mk .riff 112).encode ++ FourCC.webp.bytes ++
    (ChunkHeader.mk .vp8x 10).encode ++ [2, 0, 0, 0, 1, 0, 0, 0, 0, 0] ++
    (ChunkHeader.mk .anim 6).encode ++ [0, 0, 0, 0, 0, 0] ++
    (ChunkHeader.mk .anmf 30).encode ++ [0, 0, 0, 0, 0, 0, 1, 0, 0, 0, 0, 0, 40, 0, 0, 0] ++
      (ChunkHeader.mk .vp8l 6).encode ++ [0x2f, 1, 0, 0, 0, 0] ++
    (ChunkHeader.mk .anmf 30).encode ++ [0, 0, 0, 0, 0, 0, 0, 0, 0, 0, 0, 0, 40, 0, 0, 1] ++
      (ChunkHeader.mk .vp8l 6).encode ++ [0x2f, 0, 0, 0, 0, 0]

def blinkingHeader : FileHeader := (parse {} blinking).result.toOption.getD default

theorem parse_blinking : (parse {} blinking).result = .ok blinkingHeader :=
  Outcome.result_eq_ok_getD (by decide +kernel)

/-- A new decoder with the default settings. -/
def freshDecoder (pool : HeapPool) : Decoder Nat HeapPool where
  codec := 0
  pool := pool
  config := {}
  layout := .argb8888

theorem reachable_run_freshDecoder (pool : HeapPool) (operations : List Operation) :
    ((freshDecoder pool).run countingCodec operations).Reachable countingCodec {} :=
  ⟨0, pool, freshDecoder pool, operations, rfl, rfl⟩

/-- The animation is attached and its first frame is selected. -/
def firstPlayback : Decoder Nat HeapPool :=
  (freshDecoder {}).run countingCodec [.attach blinkingHeader blinking, .advance]

/-- The animation is selected for the third time, after its frames were returned out of order in
another layout, with a pool that holds what others left. -/
def laterPlayback : Decoder Nat HeapPool :=
  (freshDecoder ⟨[⟨3, 1, .rgb565, #[1, 2, 3]⟩], [#[7, 7, 7]], 1⟩).run countingCodec
    [.setLayout .rgb565, .attach blinkingHeader blinking, .nextFrame, .advance, .advance,
      .nextFrame, .releaseFrame ⟨1, 1, .argb8888, #[9]⟩, .clear, .setLayout .argb8888,
      .attach blinkingHeader blinking, .advance, .nextFrame, .advance, .nextFrame, .nextFrame,
      .resetIndex, .advance]

/-- The frames of the animation are the same at its third playback as at the first. -/
theorem outcomeAfter_eq_laterPlayback :
    (parse {} blinking).result = .ok blinkingHeader ∧ countingCodec.DependsOnRequest ∧
      (firstPlayback.nextFrame countingCodec).1.result.isOk ∧
      (∀ n, firstPlayback.outcomeAfter countingCodec n =
        laterPlayback.outcomeAfter countingCodec n) ∧
      ∀ loops n, firstPlayback.outcomeAfter countingCodec (loops * blinkingHeader.frameCount + n) =
        firstPlayback.outcomeAfter countingCodec n := by
  have hdecodes : (firstPlayback.nextFrame countingCodec).1.result.isOk := by decide +kernel
  have hplays₁ : firstPlayback.Plays blinkingHeader blinking := by decide +kernel
  have hplays₂ : laterPlayback.Plays blinkingHeader blinking := by decide +kernel
  have hlayout : firstPlayback.layout = laterPlayback.layout := by decide +kernel
  have hselected₁ : firstPlayback.index = some 0 := by decide +kernel
  have hselected₂ : laterPlayback.index = some 0 := by decide +kernel
  refine ⟨parse_blinking, dependsOnRequest_countingCodec, hdecodes, ?_⟩
  exact Decoder.outcomeAfter_eq_of_reachable dependsOnRequest_countingCodec parse_blinking
    (reachable_run_freshDecoder _ _) (reachable_run_freshDecoder _ _) hplays₁ hplays₂ hlayout
    hselected₁ hselected₂ hdecodes

end WebP
