import WebP.Proofs.Playback.Downsampled
import WebP.Proofs.Playback.Transcript

/-!
# The pool is never seen

A pool may hand out a new buffer or one in which another image was, and a scratch array of any
age. What a decoder draws into them is overwritten before it is read, by the codec, by the canvas
and by the copy that is returned. So two decoders with pools of their own, in any states, are
seen to do the same.

## Main definitions

* `WebP.Decoder.SamePlayback`: decoders that differ in nothing that playback depends on.
* `WebP.Decoder.PlaysLike`: and the states of whose codecs are related.
* `WebP.Decoder.seen`: all that is seen of a decoder.

## Main results

* `WebP.Decoder.PlaysLike.exchange`: such decoders answer each operation alike.
* `WebP.Decoder.map_seen_eq_of_pools`: what is seen does not depend on the pool.
-/

namespace WebP

namespace Decoder

variable {σ π₁ π₂ ε : Type} {Related : σ → σ → Prop}

/-- The decoders play the same file with the same settings; the frame that is selected, the canvas
and the layout are the same. -/
structure SamePlayback (first : Decoder σ π₁) (second : Decoder σ π₂) : Prop
    extends first.Agrees second where
  config_eq : first.config = second.config

/-- The decoders play the same, and the states of their codecs are related. -/
structure PlaysLike (Related : σ → σ → Prop) (first : Decoder σ π₁) (second : Decoder σ π₂) : Prop
    extends first.SamePlayback second where
  codec : Related first.codec second.codec

variable {first : Decoder σ π₁} {second : Decoder σ π₂}

namespace SamePlayback

theorem symm (h : first.SamePlayback second) : second.SamePlayback first :=
  ⟨⟨⟨h.sampleSize_eq.symm, h.index_eq.symm, h.layout_eq.symm⟩, h.source_eq.symm⟩, h.config_eq.symm⟩

theorem trans {π₃ : Type} {third : Decoder σ π₃} (h₁ : first.SamePlayback second)
    (h₂ : second.SamePlayback third) : first.SamePlayback third :=
  ⟨⟨⟨h₁.sampleSize_eq.trans h₂.sampleSize_eq, h₁.index_eq.trans h₂.index_eq,
    h₁.layout_eq.trans h₂.layout_eq⟩, h₁.source_eq.trans h₂.source_eq⟩,
    h₁.config_eq.trans h₂.config_eq⟩

theorem header?_eq (h : first.SamePlayback second) : first.header? = second.header? :=
  congrArg (Option.map Source.header) h.source_eq

/-- Decoders that play the same show the same. -/
theorem display_eq (h : first.SamePlayback second) : first.display = second.display := by
  have hduration : first.duration? = second.duration? := by
    funext index
    rw [duration?, duration?, h.header?_eq]
  simp only [display, delay?, byteSize, h.header?_eq, h.index_eq, h.layout_eq, h.config_eq,
    h.source_eq, hduration]

theorem setLayout (h : first.SamePlayback second) (layout : ColorLayout) :
    (first.setLayout layout).SamePlayback (second.setLayout layout) := by
  have hlayout : layoutFor first.header? layout = layoutFor second.header? layout :=
    congrArg (layoutFor · layout) h.header?_eq
  have hconfig : { first.config with layout } = { second.config with layout } := by
    rw [h.config_eq]
  exact ⟨⟨⟨h.sampleSize_eq, h.index_eq, hlayout⟩, h.source_eq⟩, hconfig⟩

theorem advance (h : first.SamePlayback second) : first.advance.SamePlayback second.advance :=
  ⟨h.toAgrees.advance, by rw [config_advance, config_advance, h.config_eq]⟩

variable [BufferPool π₁] [BufferPool π₂]

theorem clear (h : first.SamePlayback second) : first.clear.SamePlayback second.clear :=
  ⟨⟨⟨h.sampleSize_eq, rfl, h.layout_eq⟩, rfl⟩, h.config_eq⟩

/-- A file is attached to both decoders or to neither. -/
theorem attach (h : first.SamePlayback second) (header : FileHeader) (data : Bytes) :
    (first.attach header data).1 = (second.attach header data).1 ∧
      (first.attach header data).2.SamePlayback (second.attach header data).2 := by
  rcases Nat.lt_or_ge data.length header.fileLength with short | complete
  · rw [first.attach_of_short short, second.attach_of_short short]
    exact ⟨rfl, ⟨⟨h.sampleSize_eq, rfl, h.layout_eq⟩, rfl⟩, h.config_eq⟩
  · rw [first.attach_of_complete complete, second.attach_of_complete complete, h.config_eq]
    exact ⟨rfl, ⟨⟨h.sampleSize_eq, rfl, rfl⟩, rfl⟩, h.config_eq⟩

end SamePlayback

namespace PlaysLike

variable [BufferPool π₁] [LawfulBufferPool π₁] [BufferPool π₂] [LawfulBufferPool π₂] [ToString ε]
  {codec : Codec σ ε}

/-- The same is returned for the selected frame, whether it can be decoded or not. -/
theorem nextFrame (h : first.PlaysLike Related second) (agree : Codec.Agree Related codec codec) :
    (first.nextFrame codec).1 = (second.nextFrame codec).1 ∧
      (first.nextFrame codec).2.PlaysLike Related (second.nextFrame codec).2 := by
  obtain ⟨houtcome, hstates, hagrees⟩ := h.toAgrees.nextFrame_related agree h.codec
  refine ⟨houtcome, ⟨hagrees, ?_⟩, hstates⟩
  rw [(first.responds_nextFrame codec).config_eq, (second.responds_nextFrame codec).config_eq,
    h.config_eq]

/-- **One exchange.** Decoders that play alike answer an operation alike, show the same
afterwards, and go on playing alike. -/
theorem exchange (h : first.PlaysLike Related second) (agree : Codec.Agree Related codec codec)
    (operation : Operation) :
    first.exchange codec operation = second.exchange codec operation ∧
      (first.apply codec operation).PlaysLike Related (second.apply codec operation) := by
  have hstep : first.answer codec operation = second.answer codec operation ∧
      (first.apply codec operation).PlaysLike Related (second.apply codec operation) := by
    cases operation with
    | advance =>
      refine ⟨rfl, h.toSamePlayback.advance, ?_⟩
      simp only [apply, advance_eq]
      exact h.codec
    | nextFrame =>
      obtain ⟨houtcome, hnext⟩ := h.nextFrame agree
      exact ⟨congrArg Answer.frame houtcome, hnext⟩
    | resetIndex =>
      exact ⟨rfl, ⟨⟨⟨h.sampleSize_eq, rfl, h.layout_eq⟩, h.source_eq⟩, h.config_eq⟩, h.codec⟩
    | releaseFrame frame =>
      exact ⟨rfl, ⟨⟨⟨h.sampleSize_eq, h.index_eq, h.layout_eq⟩, h.source_eq⟩, h.config_eq⟩, h.codec⟩
    | clear => exact ⟨rfl, h.toSamePlayback.clear, h.codec⟩
    | attach header data =>
      obtain ⟨houtcome, hnext⟩ := h.toSamePlayback.attach header data
      refine ⟨congrArg Answer.attached houtcome, hnext, ?_⟩
      simp only [apply, codec_attach]
      exact h.codec
    | setLayout layout => exact ⟨rfl, h.toSamePlayback.setLayout layout, h.codec⟩
  obtain ⟨hanswer, hnext⟩ := hstep
  refine ⟨?_, hnext⟩
  rw [Decoder.exchange, Decoder.exchange, hanswer, hnext.display_eq]

/-- Decoders that play alike have the same transcripts. -/
theorem transcript (h : first.PlaysLike Related second) (agree : Codec.Agree Related codec codec)
    (operations : List Operation) :
    first.transcript codec operations = second.transcript codec operations ∧
      (first.run codec operations).PlaysLike Related (second.run codec operations) := by
  induction operations generalizing first second with
  | nil => exact ⟨rfl, h⟩
  | cons operation operations ih =>
    obtain ⟨hexchange, hnext⟩ := h.exchange agree operation
    obtain ⟨hrest, hlast⟩ := ih hnext
    exact ⟨congrArg₂ List.cons hexchange hrest, hlast⟩

end PlaysLike

/-- All that is seen of a decoder while it is asked for some operations: the transcript, and the
status at its end. -/
def seen [BufferPool π₁] [ToString ε] (codec : Codec σ ε) (operations : List Operation)
    (decoder : Decoder σ π₁) : List (Exchange ε) × Status :=
  (decoder.transcript codec operations, (decoder.run codec operations).status)

/-- New decoders with the same settings and one state of the codec play alike. -/
theorem playsLike_new {config : DecoderConfig} {state : σ} {pool₁ : π₁} {pool₂ : π₂}
    (new₁ : new? state pool₁ config = .ok first) (new₂ : new? state pool₂ config = .ok second) :
    first.PlaysLike (· = ·) second ∧ first.status = second.status := by
  obtain rfl := eq_of_new new₁
  obtain rfl := eq_of_new new₂
  exact ⟨⟨⟨⟨⟨rfl, rfl, rfl⟩, rfl⟩, rfl⟩, rfl⟩, rfl⟩

variable [BufferPool π₁] [LawfulBufferPool π₁] [BufferPool π₂] [LawfulBufferPool π₂] [ToString ε]
  {codec : Codec σ ε}

/-- The status is seen in a transcript, if it was the same at first. -/
theorem PlaysLike.seen_eq (h : first.PlaysLike Related second)
    (agree : Codec.Agree Related codec codec) (status : first.status = second.status)
    (operations : List Operation) : first.seen codec operations = second.seen codec operations := by
  rw [seen, seen, status_run, status_run, status, (h.transcript agree operations).1]

/-- **The pool is never seen.** Make two decoders with the same settings, each with a pool of its
own that holds whatever others have left, and let the codec not look at what a buffer held before.
Either both are refused, or the same is seen of both, whatever they are asked for: what they
return, down to every pixel, and what they show of themselves. -/
theorem map_seen_eq_of_pools (agree : Codec.Agree (· = ·) codec codec) (config : DecoderConfig)
    (state : σ) (pool₁ : π₁) (pool₂ : π₂) (operations : List Operation) :
    (new? state pool₁ config).map (seen codec operations) =
      (new? state pool₂ config).map (seen codec operations) := by
  by_cases hzero : config.sampleSize = 0
  · rw [new?, new?, if_pos hzero, if_pos hzero]
    rfl
  · obtain ⟨first, new₁⟩ : ∃ first, new? state pool₁ config = .ok first := ⟨_, if_neg hzero⟩
    obtain ⟨second, new₂⟩ : ∃ second, new? state pool₂ config = .ok second := ⟨_, if_neg hzero⟩
    obtain ⟨hlike, hstatus⟩ := playsLike_new new₁ new₂
    rw [new₁, new₂]
    exact congrArg Except.ok (hlike.seen_eq agree hstatus operations)

end Decoder

/-! ### A pool that was used before -/

/-- A pool that holds a buffer of another shape and layout and an array of another length. -/
def usedPool : HeapPool := ⟨[⟨3, 1, .rgb565, #[1, 2, 3]⟩], [#[7, 7, 7]], 1⟩

/-- With an empty pool and with a used one, the same is seen while three frames of an animation
are returned in half their size. -/
theorem map_seen_eq_of_pools_cornered :
    Codec.Agree (· = ·) shadingCodec shadingCodec ∧
      (halvingDecoder.seen shadingCodec
        (corneredOperations {} ++ [.nextFrame, .clear])).1.countP (·.answer.isFrame) = 3 ∧
      (Decoder.new? 0 ({} : HeapPool) { sampleSize := 3 }).map
          (Decoder.seen shadingCodec (corneredOperations {} ++ [.nextFrame, .clear])) =
        (Decoder.new? 0 usedPool { sampleSize := 3 }).map
          (Decoder.seen shadingCodec (corneredOperations {} ++ [.nextFrame, .clear])) :=
  ⟨agree_shadingCodec, by decide +kernel,
    Decoder.map_seen_eq_of_pools agree_shadingCodec _ _ _ _ _⟩

end WebP
