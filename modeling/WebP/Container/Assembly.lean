import WebP.Chunk.FixedSize
import WebP.Container.FrameContent

/-!
# The grammar of a file

The chunks of a file are taken in order, and each is allowed or refused by what came before it.
Which kinds came before is kept in a set, to which each chunk that is allowed adds its own kind.
What the chunks tell is put together step by step; at the end, what was announced is compared with
what was found.

A still image is a single image chunk. With an extended header in front, the file may have an
alpha plane and a colour profile before the image, and metadata anywhere. An animation has an
animation header and one chunk for each frame.

## Main definitions

* `WebP.Assembly`: what the chunks so far have told.
* `WebP.Assembly.add`: the effect of one more chunk.
* `WebP.Assembly.check`: what must hold once all chunks have been seen.
* `WebP.Assembly.toHeader`: the description of the file.
-/

namespace WebP

open Outcome (emit emitIf ensure fail)

/-- What the chunks of a file have told so far. -/
structure Assembly where
  /-- The kinds of which a chunk has been taken. -/
  seen : KindSet := {}
  /-- The extended header. -/
  extended : Option CanvasHeader := none
  animation : Option AnimationHeader := none
  canvas : Option Size := none
  /-- An alpha plane whose image has not come yet. -/
  pendingAlpha : Option (AlphaInfo × Span) := none
  frames : List Frame := []
  /-- The chunks that have been taken. -/
  chunks : List ChunkEntry := []
deriving DecidableEq, Repr, Inhabited

namespace Assembly

/-- Whether a chunk of the kind has been taken. -/
def Has (file : Assembly) (kind : ChunkKind) : Prop := file.seen.has kind

instance (file : Assembly) (kind : ChunkKind) : Decidable (file.Has kind) :=
  inferInstanceAs (Decidable (_ = true))

/-- Whether an image chunk has been taken. -/
def HasImage (file : Assembly) : Prop := file.Has .lossy ∨ file.Has .lossless

instance (file : Assembly) : Decidable file.HasImage := inferInstanceAs (Decidable (_ ∨ _))

/-- Whether a chunk of an animation has been taken. -/
def HasAnimation (file : Assembly) : Prop := file.Has .animation ∨ file.Has .frame

instance (file : Assembly) : Decidable file.HasAnimation := inferInstanceAs (Decidable (_ ∨ _))

/-- The code of the image chunk that has been taken. -/
def imageName (file : Assembly) : FourCC := if file.Has .lossless then .vp8l else .vp8

/-- Some frame has alpha. -/
def hasAlpha (file : Assembly) : Bool := file.frames.any Frame.hasAlpha

/-- Very large images are mentioned in the log. -/
def warnIfOversized (config : Config) (size : Size) : Parsed Unit :=
  emitIf (config.maxImageArea < size.area) (.oversized size config.maxImageArea)

/-- The extended header comes once and before any image. -/
def addCanvas (config : Config) (file : Assembly) (chunk : Chunk) : Parsed Assembly := do
  ensure (¬ file.Has .canvas) .invalidChunkLayout [.repeatedChunk .vp8x]
  ensure (¬ file.HasImage) .invalidChunkLayout [.chunkAfter .vp8x file.imageName]
  ensure (chunk.payload.length = CanvasHeader.encodedLength) .invalidChunkLayout
    [.invalidPayloadLength .vp8x chunk.payload.length]
  let header ← chunk.read CanvasHeader.read
  emit (.canvas header.canvas header.flags)
  warnIfOversized config header.canvas
  return { file with
    seen := file.seen.insert .canvas
    extended := some header
    canvas := some header.canvas }

/-- The animation header comes once and behind the extended header. -/
def addAnimation (file : Assembly) (chunk : Chunk) : Parsed Assembly := do
  ensure (file.Has .canvas) .invalidChunkLayout [.expectedChunk .vp8x]
  ensure (¬ file.Has .animation) .invalidChunkLayout [.repeatedChunk .anim]
  ensure (chunk.payload.length = AnimationHeader.encodedLength) .invalidChunkLayout
    [.invalidPayloadLength .anim chunk.payload.length]
  let header ← chunk.read AnimationHeader.read
  emit (.animation header.background.toNat header.loopCount)
  return { file with seen := file.seen.insert .animation, animation := some header }

/-- The largest offset of a frame. -/
def maxFrameOffset : Nat := 0x1000000

/-- The duration of a frame; very short ones are replaced by the default. -/
def frameDuration (config : Config) (duration : Nat) : Nat :=
  if duration < config.minFrameDelay then config.defaultFrameDelay else duration

/-- The place of a frame that is said by its header. -/
def placement (index : Nat) (header : FrameHeader) : Placement where
  index := index
  rect := header.rect
  dispose := if header.flags.disposeBackground then .background else .keep
  blend := if header.flags.noBlending then .replace else .over

/-- A frame comes behind the animation header and lies on the canvas. -/
def addFrame (config : Config) (file : Assembly) (chunk : Chunk) : Parsed Assembly := do
  ensure (file.Has .animation) .invalidChunkLayout [.expectedChunk .anim]
  let length := chunk.payload.length
  ensure (length % 2 = 0) .invalidChunkLayout [.invalidPayloadLength .anmf length]
  ensure (FrameHeader.encodedLength ≤ length) .truncatedChunk
    [.invalidPayloadLength .anmf length]
  let header ← chunk.read FrameHeader.read
  let rect := header.rect
  emit (.frame rect header.duration header.flags)
  ensure (rect.x ≤ maxFrameOffset ∧ rect.y ≤ maxFrameOffset) .invalidParam
    [.frameOffsetOutOfRange, .readingChunk .anmf]
  match file.canvas with
  | none => fail .invalidChunkLayout [.expectedChunk .vp8x]
  | some canvas =>
    ensure (rect.FitsWithin canvas) .invalidParam
      [.frameOutOfCanvas rect canvas, .readingChunk .anmf]
    let frame ← (FrameContent.read config (placement file.frames.length header)
      (frameDuration config header.duration)
      (chunk.children FrameHeader.encodedLength)).noting (.readingChunk .anmf)
    return { file with seen := file.seen.insert .frame, frames := file.frames ++ [frame] }

/-- The canvas of a still image. It is announced by an extended header, and else it has the size
of the image. -/
def stillCanvas (config : Config) (file : Assembly) (format : ImageFormat) (image : Size) :
    Parsed Assembly :=
  match file.extended with
  | some header => do
    ensure (image = header.canvas) .invalidChunkLayout
      [.canvasMismatch image header.canvas, .readingChunk format.chunkName]
    return file
  | none => do
    warnIfOversized config image
    return { file with canvas := some image }

/-- A still image comes once, not behind an animation, and has the size of the canvas. -/
def addImage (config : Config) (file : Assembly) (format : ImageFormat) (chunk : Chunk) :
    Parsed Assembly := do
  ensure (¬ file.HasImage) .invalidChunkLayout [.repeatedChunk format.chunkName]
  ensure (¬ file.HasAnimation) .invalidChunkLayout [.chunkAfter format.chunkName .anim]
  ensure (format = .lossless → ¬ file.Has .alpha) .invalidChunkLayout [.chunkAfter .vp8l .alph]
  let image ← ImageInfo.inspect config format chunk.payload
  let file ← file.stillCanvas config format image.size
  let frame : Frame :=
    { index := file.frames.length
      rect := .ofSize image.size
      dispose := .keep
      blend := .replace
      duration := 0
      payload := chunk.payloadSpan
      alphaPayload := file.pendingAlpha.map (·.2)
      image
      alpha := file.pendingAlpha.map (·.1) }
  return { file with
    seen := file.seen.insert format.kind
    frames := file.frames ++ [frame]
    pendingAlpha := none }

/-- The alpha plane of a still image comes once, behind the extended header and before the
image. -/
def addAlpha (file : Assembly) (chunk : Chunk) : Parsed Assembly := do
  ensure (¬ file.HasAnimation) .invalidChunkLayout [.chunkAfter .alph .anim]
  ensure (file.Has .canvas) .invalidChunkLayout [.expectedChunk .vp8x]
  ensure (¬ file.HasImage) .invalidChunkLayout [.chunkAfter .alph file.imageName]
  ensure (¬ file.Has .alpha) .invalidChunkLayout [.repeatedChunk .alph]
  let info ← AlphaInfo.inspect chunk.payload
  return { file with
    seen := file.seen.insert .alpha
    pendingAlpha := some (info, chunk.payloadSpan) }

/-- The colour profile comes once, behind the extended header and before everything that
depends on it. -/
def addProfile (file : Assembly) : Parsed Assembly := do
  ensure (file.Has .canvas) .invalidChunkLayout [.expectedChunk .vp8x]
  ensure (¬ (file.HasImage ∨ file.HasAnimation ∨ file.Has .alpha)) .invalidChunkLayout
    [.profileAfterImage]
  ensure (¬ file.Has .iccp) .invalidChunkLayout [.repeatedChunk .iccp]
  return { file with seen := file.seen.insert .iccp }

/-- What a chunk tells, by its kind. -/
def interpret (config : Config) (file : Assembly) (chunk : Chunk) : Parsed Assembly :=
  match chunk.kind with
  | .canvas => file.addCanvas config chunk
  | .animation => file.addAnimation chunk
  | .frame => file.addFrame config chunk
  | .lossy => file.addImage config .lossy chunk
  | .lossless => file.addImage config .lossless chunk
  | .alpha => file.addAlpha chunk
  | .iccp => file.addProfile
  | .exif => pure { file with seen := file.seen.insert .exif }
  | .xmp => pure { file with seen := file.seen.insert .xmp }
  | .unknown name => do
    emit (.unknownChunk name chunk.offset)
    return file

/-- The effect of one more chunk. -/
def add (config : Config) (file : Assembly) (chunk : Chunk) : Parsed Assembly := do
  emit (.chunk chunk.kind.name chunk.offset chunk.payload.length)
  let file ← file.interpret config chunk
  return { file with chunks := file.chunks ++ [chunk.entry] }

/-- An announced animation has an animation header and a frame. -/
def checkAnimation (file : Assembly) (header : CanvasHeader) : Parsed Unit :=
  ensure (header.flags.animated → file.Has .animation ∧ file.Has .frame) .invalidChunkLayout
    [.flagMismatch .animated, .animationMissing]

/-- The extended header announces exactly the metadata that is there, and several frames only
if it announces an animation. Alpha that is announced wrongly is mentioned in the log. -/
def checkFlags (file : Assembly) (header : CanvasHeader) : Parsed Unit := do
  let flags := header.flags
  emitIf (flags.alpha ∧ ¬ file.hasAlpha) .alphaMissing
  emitIf (¬ flags.alpha ∧ file.hasAlpha) .alphaUnannounced
  ensure (flags.exif ↔ file.Has .exif) .invalidChunkLayout [.flagMismatch .exif]
  ensure (flags.xmp ↔ file.Has .xmp) .invalidChunkLayout [.flagMismatch .xmp]
  ensure (flags.iccp ↔ file.Has .iccp) .invalidChunkLayout [.flagMismatch .iccp]
  ensure (flags.animated ∨ file.frames.length ≤ 1) .invalidChunkLayout [.framesWithoutAnimation]

/-- What must hold once all chunks have been taken. -/
def check (file : Assembly) : Parsed Unit := do
  file.extended.forM file.checkAnimation
  ensure (file.frames ≠ []) (.missingRequiredChunk .vp8) [.noFrames]
  file.extended.forM file.checkFlags

/-- Whether the extended header sets a flag. -/
def announces (file : Assembly) (flag : CanvasFlag) : Bool :=
  file.extended.any fun header => header.flags.has flag

/-- The description of a file of the given length. -/
def toHeader (file : Assembly) (fileLength : Nat) : FileHeader where
  canvas := file.canvas.getD ⟨1, 1⟩
  features :=
    { animation := file.announces .animated
      alpha := file.hasAlpha || file.announces .alpha
      exif := file.Has .exif
      iccp := file.Has .iccp
      xmp := file.Has .xmp }
  loopCount := match file.animation with
    | some header => .ofHeader header.loopCount
    | none => .notSpecified
  background := file.animation.map (·.background)
  frames := file.frames
  chunks := file.chunks
  fileLength := fileLength

end Assembly

end WebP
