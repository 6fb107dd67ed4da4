import WebP.Outcome
import WebP.Playback.Codec
import WebP.Playback.Compositor
import WebP.Playback.Failure

/-!
# Decoders

A decoder plays a file back: it is attached to a file, then moves from frame to frame and returns
the canvas as it looks with each. The frames of a file without animation are copied to the output
without a canvas.

## Main definitions

* `WebP.Decoder`, with `Decoder.attach`, `Decoder.advance` and `Decoder.nextFrame`.
* `WebP.DecoderConfig`: how a decoder plays files back.
-/

namespace WebP

open BufferPool (obtain release)

/-- How files are played back. -/
structure DecoderConfig where
  /-- By how much the canvas is made smaller. -/
  sampleSize : Nat := 1
  /-- The layout of returned frames, unless the file has alpha. -/
  layout : ColorLayout := .argb8888
  /-- Whether a frame disposed of to the background is cleared to the background colour of the
  animation, instead of being made transparent. -/
  disposeToBackground : Bool := false
deriving DecidableEq, Repr, Inhabited

/-- A file that is being played back. -/
structure Source where
  header : FileHeader
  data : Bytes
  /-- There is a compositor if the file is an animation. -/
  compositor : Option Compositor
deriving DecidableEq, Repr

namespace Source

variable {π : Type} [BufferPool π]

/-- Gives the canvas of a file back to the pool. -/
def releaseCanvas (source : Source) (pool : π) : π :=
  match source.compositor with
  | some compositor => (compositor.reset pool).2
  | none => pool

/-- Turns the pixels of a frame into the output. -/
def present (source : Source) (sampleSize : Nat) (place : Placement)
    (decoded output : PixelBuffer) (pool : π) : PixelBuffer × Source × π × List Event :=
  match source.compositor with
  | some compositor =>
    let step := compositor.compose place decoded output pool
    (step.output, { source with compositor := some step.compositor }, step.pool, step.log)
  | none => (decoded.downsampleInto sampleSize output, source, pool, [])

end Source

/-- Plays files back with a codec of state `σ` and buffers from a pool of type `π`. -/
structure Decoder (σ π : Type) where
  codec : σ
  pool : π
  config : DecoderConfig
  source : Option Source := none
  /-- The selected frame. -/
  index : Option Nat := none
  /-- The layout of returned frames. -/
  layout : ColorLayout
  /-- How the last step went. -/
  status : Status := .ok

namespace Decoder

variable {σ π ε : Type}

/-- A decoder without a file. The sample size is rounded down to a power of two. -/
def new? (codec : σ) (pool : π) (config : DecoderConfig) : Except Fault (Decoder σ π) :=
  if config.sampleSize = 0 then
    .error ⟨.invalidParam, [.sampleSizeZero]⟩
  else
    .ok {
      codec
      pool
      config := { config with sampleSize := floorPowerOfTwo config.sampleSize }
      layout := config.layout }

def header? (decoder : Decoder σ π) : Option FileHeader := decoder.source.map (·.header)

/-- The layout of frames of a file, which is the default one only if the file has no alpha. -/
def layoutFor (header : Option FileHeader) (default : ColorLayout) : ColorLayout :=
  if header.any FileHeader.hasAlpha then .argb8888 else default

/-- The number of frames of the attached file. -/
def frameCount (decoder : Decoder σ π) : Nat := decoder.header?.elim 0 FileHeader.frameCount

/-- How long a frame is shown. -/
def duration? (decoder : Decoder σ π) (index : Nat) : Option Nat := do
  let header ← decoder.header?
  let frame ← header.frame? index
  return frame.duration

/-- How long the selected frame is shown. -/
def delay? (decoder : Decoder σ π) : Option Nat := decoder.index.bind decoder.duration?

/-- The loop count of the attached file. -/
def loopCount (decoder : Decoder σ π) : LoopCount :=
  decoder.header?.elim .notSpecified FileHeader.loopCount

/-- The size of the attached file and of its canvas, in bytes. -/
def byteSize (decoder : Decoder σ π) : Nat :=
  decoder.source.elim 0 fun source =>
    source.data.length + source.compositor.elim 0 Compositor.byteSize

/-- Selects the next frame, the first one after the last. -/
def advance (decoder : Decoder σ π) : Decoder σ π :=
  match decoder.source with
  | none => decoder
  | some source =>
    let count := source.header.frameCount
    let next := match decoder.index with
      | none => 0
      | some index => (index + 1) % count
    { decoder with index := if count = 0 then none else some next }

/-- Goes back to before the first frame. -/
def resetIndex (decoder : Decoder σ π) : Decoder σ π := { decoder with index := none }

/-- Sets the default layout of returned frames. -/
def setLayout (decoder : Decoder σ π) (layout : ColorLayout) : Decoder σ π :=
  { decoder with
    config := { decoder.config with layout }
    layout := layoutFor decoder.header? layout }

variable [BufferPool π]

/-- Gives a returned frame back to the pool. -/
def releaseFrame (decoder : Decoder σ π) (frame : PixelBuffer) : Decoder σ π :=
  { decoder with pool := release decoder.pool frame }

/-- Detaches the file. -/
def clear (decoder : Decoder σ π) : Decoder σ π :=
  { decoder with
    pool := decoder.source.elim decoder.pool fun source =>
      source.releaseCanvas decoder.pool
    source := none
    index := none
    status := .ok }

/-- The compositor for a file, if it is an animation. -/
def compositorFor (config : DecoderConfig) (header : FileHeader) : Option Compositor :=
  if header.isAnimated then
    let background := if config.disposeToBackground then header.background else none
    some (.new header.canvas config.sampleSize (background.getD Pixel.transparent))
  else
    none

/-- Attaches a file, given by its description and the bytes that were read. If there are fewer
bytes than the file has, no file is attached. -/
def attach (decoder : Decoder σ π) (header : FileHeader) (data : Bytes) :
    Parsed Unit × Decoder σ π :=
  let decoder := decoder.clear
  if data.length < header.fileLength then
    (.fail .noInputAttached [.inputShorterThanFile], { decoder with status := .openError })
  else
    let config := decoder.config
    let layout := layoutFor (some header) config.layout
    (.emit (.attached header.canvas header.frameCount config.sampleSize layout),
      { decoder with
        source := some ⟨header, data, compositorFor config header⟩
        layout })

/-- Decodes a frame of the attached file and presents it. If the codec fails the canvas stays as
it was. -/
def decodeFrame [ToString ε] (codec : Codec σ ε) (decoder : Decoder σ π) (source : Source)
    (frame : Frame) : Outcome (Failure ε) PixelBuffer × Decoder σ π :=
  let request := DecodeRequest.ofFrame frame source.data
  let (blank, pool) := obtain decoder.pool request.size.width request.size.height .argb8888
  let (result, decoded, state) := codec.decode decoder.codec request blank
  match result with
  | .error error =>
    (⟨.error (.codec error), [.decodeFailed frame.index (toString error)]⟩,
      { decoder with
        codec := state
        pool := release pool decoded
        status := .bitstreamError })
  | .ok () =>
    let size := downsampledSize source.header.canvas decoder.config.sampleSize
    let (output, pool) := obtain pool size.width size.height decoder.layout
    let (output, source, pool, log) :=
      source.present decoder.config.sampleSize frame.toPlacement decoded output pool
    (⟨.ok output, log⟩,
      { decoder with
        codec := state
        pool := release pool decoded
        source := some source
        status := .ok })

/-- Decodes the selected frame and returns the canvas with it. -/
def nextFrame [ToString ε] (codec : Codec σ ε) (decoder : Decoder σ π) :
    Outcome (Failure ε) PixelBuffer × Decoder σ π :=
  match decoder.source with
  | none => (.error (.fault ⟨.noInputAttached, []⟩), { decoder with status := .openError })
  | some source =>
    match decoder.index.bind source.header.frame? with
    | none =>
      (.error (.fault ⟨.noFrameSelected, [.notAdvanced]⟩), { decoder with status := .parseError })
    | some frame => decoder.decodeFrame codec source frame

end Decoder

end WebP
