import WebP.Container.Header

/-!
# The chunks inside a frame

A frame of an animation holds, behind its header, an image and perhaps, in front of a lossy
image, an alpha plane. Chunks of an unknown kind are skipped and any other kind is refused.

## Main definitions

* `WebP.FrameContent`: what has been found inside a frame.
* `WebP.FrameContent.add`: the effect of one more chunk.
* `WebP.FrameContent.read`: the content of a frame.
-/

namespace WebP

open Outcome (emit ensure fail)

/-- What has been found inside a frame, with where it lies in the file. -/
structure FrameContent where
  alpha : Option (AlphaInfo × Span) := none
  image : Option (ImageInfo × Span) := none
deriving DecidableEq, Repr, Inhabited

namespace FrameContent

/-- An alpha plane comes once, in front of the image. -/
def addAlpha (content : FrameContent) (chunk : Chunk) : Parsed FrameContent := do
  ensure (content.alpha = none) .invalidChunkLayout [.repeatedChunk .alph]
  ensure (content.image = none) .invalidChunkLayout [.chunkAfter .alph .vp8]
  let info ← AlphaInfo.inspect chunk.payload
  return { content with alpha := some (info, chunk.payloadSpan) }

/-- An image comes once and has the size of its frame; a lossless one has no alpha plane. -/
def addImage (config : Config) (size : Size) (content : FrameContent) (format : ImageFormat)
    (chunk : Chunk) : Parsed FrameContent := do
  ensure (content.image = none) .invalidChunkLayout
    [.repeatedImageInFrame, .readingChunk format.chunkName]
  ensure (format = .lossless → content.alpha = none) .invalidChunkLayout
    [.chunkAfter .vp8l .alph]
  let info ← ImageInfo.inspect config format chunk.payload
  (Outcome.ofExcept (info.ensureSize size)).noting (.readingChunk format.chunkName)
  return { content with image := some (info, chunk.payloadSpan) }

/-- The effect of a chunk inside a frame of the given size. -/
def add (config : Config) (size : Size) (content : FrameContent) (chunk : Chunk) :
    Parsed FrameContent := do
  emit (.chunk chunk.kind.name chunk.offset chunk.payload.length)
  match chunk.kind with
  | .alpha => content.addAlpha chunk
  | .lossy => content.addImage config size .lossy chunk
  | .lossless => content.addImage config size .lossless chunk
  | .unknown name =>
    emit (.unknownChunk name chunk.offset)
    return content
  | .animation | .frame | .exif | .iccp | .canvas | .xmp =>
    fail .invalidChunkLayout [.chunkNotAllowedInFrame, .readingChunk chunk.kind.name]

/-- The frame with this content. -/
def frame? (content : FrameContent) (place : Placement) (duration : Nat) : Option Frame :=
  content.image.map fun (image, payload) =>
    { place with
      duration
      payload
      alphaPayload := content.alpha.map (·.2)
      image
      alpha := content.alpha.map (·.1) }

/-- Reads a frame from the chunks inside it; it must have an image. -/
def read (config : Config) (place : Placement) (duration : Nat) (chunks : Walker) :
    Parsed Frame := do
  let content ← chunks.walk.fold (add config place.rect.size) {}
  match content.frame? place duration with
  | some frame => return frame
  | none => fail (.missingRequiredChunk .vp8) []

end FrameContent

end WebP
