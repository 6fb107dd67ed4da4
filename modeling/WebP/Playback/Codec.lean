import WebP.Container.Header
import WebP.Pixel.Buffer

/-!
# Pixel codecs

Decoding the pixels of an image is left to a codec from outside. It is handed the bytes of one
frame and a buffer of the size of its image.

## Main definitions

* `WebP.DecodeRequest`: what a codec is handed.
* `WebP.Codec`: a codec with a state of type `σ` and errors of type `ε`.
-/

namespace WebP

/-- One image to decode. -/
structure DecodeRequest where
  /-- The index of the frame. -/
  index : Nat
  /-- The bitstream of the image. -/
  payload : Bytes
  /-- The alpha plane, if the frame has one. -/
  alpha : Option Bytes
  format : ImageFormat
  size : Size
deriving DecidableEq, Repr, Inhabited

/-- The request for a frame of a file. -/
def DecodeRequest.ofFrame (frame : Frame) (data : Bytes) : DecodeRequest where
  index := frame.index
  payload := data.slice frame.payload
  alpha := frame.alphaPayload.map data.slice
  format := frame.image.format
  size := frame.image.size

/-- Decodes images. On success the buffer holds the pixels of the image. -/
structure Codec (σ ε : Type) where
  decode : σ → DecodeRequest → PixelBuffer → Except ε Unit × PixelBuffer × σ

end WebP
