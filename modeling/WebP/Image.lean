import WebP.Alpha.Header
import WebP.Chunk.Kind
import WebP.Config
import WebP.Lossless.Header
import WebP.Lossy.Detail

/-!
# What is known of an image

The headers of an image say how large it is and how it is coded. They are read without decoding
a pixel.

## Main definitions

* `WebP.ImageInfo`: what the headers of an image say, with `ImageInfo.inspect`.
* `WebP.AlphaInfo`: what the headers of an alpha plane say, with `AlphaInfo.inspect`.
-/

namespace WebP

open Outcome (emit)

/-- The two ways in which images are coded. -/
inductive ImageFormat where
  | lossy
  | lossless
deriving DecidableEq, Repr, Inhabited

namespace ImageFormat

def text : ImageFormat → String
  | .lossy => "lossy"
  | .lossless => "lossless"

/-- The kind of the chunks that hold bitstreams of the format. -/
def kind : ImageFormat → ChunkKind
  | .lossy => .lossy
  | .lossless => .lossless

/-- The code of the chunk that holds a bitstream of this format. -/
def chunkName : ImageFormat → FourCC
  | .lossy => .vp8
  | .lossless => .vp8l

end ImageFormat

/-- What the headers of an image say. -/
structure ImageInfo where
  size : Size
  /-- Whether the bitstream itself holds alpha, which a lossy one never does. -/
  hasAlpha : Bool
  format : ImageFormat
  /-- The detail of a lossy image, where it was asked for and could be read. -/
  lossy : Option LossyDetail
  /-- The leading transforms of a lossless image. -/
  transforms : List Transform
deriving DecidableEq, Repr, Inhabited

namespace ImageInfo

/-- The detail of a lossy image. A detail that cannot be read is left out. -/
def lossyDetail (payload : Bytes) (header : KeyFrameHeader) : Parsed (Option LossyDetail) :=
  match LossyDetail.read payload header with
  | .ok detail => pure (some detail)
  | .error fault => do
    emit (.lossyDetailOmitted fault)
    return none

/-- The headers of a lossy image. -/
def inspectLossy (config : Config) (payload : Bytes) : Parsed ImageInfo := do
  let header ← KeyFrameHeader.read.ofStart payload
  emit (.lossyImage header.size header.profile header.partitionLength)
  let lossy ← if config.inspectLossyDetail then lossyDetail payload header else pure none
  return ⟨header.size, false, .lossy, lossy, []⟩

/-- The headers of a lossless image. -/
def inspectLossless (payload : Bytes) : Parsed ImageInfo := do
  let header ← LosslessHeader.read.ofStart payload
  emit (.losslessImage header.size header.alphaIsUsed header.transforms.length)
  return ⟨header.size, header.alphaIsUsed, .lossless, none, header.transforms⟩

/-- The headers of an image of a format. -/
def inspect (config : Config) (format : ImageFormat) (payload : Bytes) :
    Parsed ImageInfo :=
  let info := match format with
    | .lossy => inspectLossy config payload
    | .lossless => inspectLossless payload
  info.noting (.readingChunk format.chunkName)

/-- Refuses an image that is not of the size of its frame. -/
def ensureSize (info : ImageInfo) (frame : Size) : Except Fault Unit :=
  if info.size = frame then
    .ok ()
  else
    .error ⟨.invalidBitstream, [.dimensionsMismatch info.size frame]⟩

end ImageInfo

/-- What the headers of an alpha plane say. -/
structure AlphaInfo extends AlphaHeader where
  /-- The leading transforms of a plane that is compressed without loss. -/
  transforms : List Transform
deriving DecidableEq, Repr, Inhabited

namespace AlphaInfo

/-- Reads the transforms behind the first byte of an alpha plane. -/
def readTransforms (compression : AlphaCompression) : Cursor.Read (List Transform) := do
  match compression with
  | .uncompressed => return []
  | .lossless =>
    let stream ← .bits .leastSignificantFirst
    let (transforms, _) ← .lift ((Chain.ofStream stream).outcome.noting (.readingChunk .alph))
    return transforms

/-- Reads the headers of an alpha plane. -/
def read : Cursor.Read AlphaInfo := do
  let header ← AlphaHeader.read
  let transforms ← readTransforms header.compression
  .lift (emit (.alphaPlane header))
  return { header with transforms }

/-- The headers of an alpha plane. -/
def inspect (payload : Bytes) : Parsed AlphaInfo := read.ofStart payload

end AlphaInfo

end WebP
