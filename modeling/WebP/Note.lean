import WebP.FourCC
import WebP.Flags
import WebP.Geometry
import WebP.Lossless.Transform

/-!
# Notes on a fault

A fault is reported with notes that say what exactly was wrong and what was being read at the
time. This module lists the notes and gives their wording.

Three things that a report may show besides are left out, since they repeat the text of the program
and not what is in the file: the condition that did not hold, as it is written there (`condition
failed: …`), the name of the type of the value that was being read (`while parsing value of type
…`), and the place in the program where a remark was made. A fault has no note for them, so nothing
that is said about the notes of a fault is said about these three.
-/

namespace WebP

/-- The largest length that a chunk may declare: with its header the chunk still has a length of
32 bits. -/
def maxPayloadLength : Nat := 0xffffffff - 8

/-- A remark on a fault. -/
inductive Note where
  -- what was being read
  | readingChunk (name : FourCC)
  | readingField (chunk : FourCC) (field : String)
  | readingTransform (kind : TransformKind)
  -- bytes and bits
  | bytesOutOfBounds (count offset length : Nat)
  | endOfBits
  | tooManyBits
  | bitsOutOfBounds (count length : Nat)
  -- chunks
  | payloadTooLarge (length : Nat)
  | payloadOutOfBounds (length offset available : Nat)
  | invalidPayloadLength (name : FourCC) (length : Nat)
  | repeatedChunk (name : FourCC)
  | expectedChunk (name : FourCC)
  | chunkAfter (name previous : FourCC)
  | profileAfterImage
  | repeatedImageInFrame
  | chunkNotAllowedInFrame
  -- the file
  | notRiff
  | notWebP
  | riffTooSmall
  | riffTooLarge
  | inputTooShort (length : Nat)
  | fileTruncated (fileLength inputLength : Nat)
  | flagMismatch (flag : CanvasFlag)
  | animationMissing
  | noFrames
  | framesWithoutAnimation
  | frameOffsetOutOfRange
  | frameOutOfCanvas (frame : Rect) (canvas : Size)
  | canvasMismatch (image canvas : Size)
  -- bitstreams
  | notKeyFrame
  | unknownProfile
  | invisibleFrame
  | invalidStartCode (code : Bytes)
  | partitionTooLong (length remaining : Nat)
  | partitionsOutOfBounds (count available : Nat)
  | headerExceedsPartition
  | invalidSignature (signature : Nat)
  | repeatedTransform (kind : TransformKind)
  | invalidAlphaCompression (method : Nat)
  | invalidAlphaPreprocessing (level : Nat)
  | dimensionsMismatch (image frame : Size)
  -- use of a parser or a decoder
  | parserNotCleared
  | sampleSizeZero
  | inputShorterThanFile
  | notAdvanced
  -- words of the caller
  | remark (words : String)
deriving DecidableEq, Repr

namespace Note

/-- Words in backquotes. -/
def quote (words : String) : String := s!"`{words}`"

/-- The wording of a note. -/
def text : Note → String
  | readingChunk name => s!"while parsing {quote name.text} chunk"
  | readingField chunk field =>
    s!"while parsing {quote chunk.text} chunk field {quote field}"
  | readingTransform kind => s!"while parsing {kind.text} transform"
  | bytesOutOfBounds count offset length =>
    s!"read of `{count}` bytes at offset `{offset}` exceeds buffer of `{length}` bytes"
  | endOfBits => "failed to fill whole buffer"
  | tooManyBits => "excessive bits for type read"
  | bitsOutOfBounds count length => s!"read of `{count}` bits exceeds buffer of `{length}` bytes"
  | payloadTooLarge length =>
    s!"chunk payload of `{length}` bytes exceeds the maximum of `{maxPayloadLength}`"
  | payloadOutOfBounds length offset available =>
    s!"chunk payload of `{length}` bytes at offset `{offset}` exceeds `{available}` " ++
      "remaining bytes"
  | invalidPayloadLength name length => s!"invalid {quote name.text} payload length `{length}`"
  | repeatedChunk name => s!"multiple {quote name.text} chunks"
  | expectedChunk name => s!"expected {quote name.text} chunk first"
  | chunkAfter name previous =>
    s!"unexpected {quote name.text} chunk after {quote previous.text} chunk"
  | profileAfterImage => "`ICCP` chunk after image data"
  | repeatedImageInFrame => "consecutive image sub-chunks"
  | chunkNotAllowedInFrame => "unexpected chunk in animation frame"
  | notRiff => "not a RIFF file"
  | notWebP => "not a WebP file"
  | riffTooSmall => "RIFF size too small"
  | riffTooLarge => "RIFF size too large"
  | inputTooShort length =>
    s!"input of `{length}` bytes is shorter than a RIFF header and one chunk header"
  | fileTruncated fileLength inputLength =>
    s!"declared file length `{fileLength}` exceeds input length `{inputLength}`"
  | flagMismatch flag =>
    s!"`VP8X` flag {quote (CanvasFlags.only flag).text} does not match chunk presence"
  | animationMissing => "animation without `ANIM` and `ANMF` chunks"
  | noFrames => "no frames"
  | framesWithoutAnimation => "multiple frames without the `VP8X` animation flag"
  | frameOffsetOutOfRange => "frame offset out of range"
  | frameOutOfCanvas frame canvas =>
    s!"frame {frame.size.quoted} @ ({frame.x}, {frame.y}) exceeds canvas {canvas.quoted}"
  | canvasMismatch image canvas =>
    s!"image dimensions {image.quoted} do not match canvas dimensions {canvas.quoted}"
  | notKeyFrame => "not a key frame"
  | unknownProfile => "unknown profile"
  | invisibleFrame => "first frame is invisible"
  | invalidStartCode code =>
    let inner := ", ".intercalate (code.map fun b => Numeral.padded 16 2 b.toNat)
    s!"invalid VP8 start code `[{inner}]`"
  | partitionTooLong length remaining =>
    s!"partition 0 length `{length}` >= remaining payload length `{remaining}`"
  | partitionsOutOfBounds count available =>
    s!"{count} partitions do not fit in `{available}` bytes"
  | headerExceedsPartition => "frame header exceeds partition 0"
  | invalidSignature signature =>
    s!"invalid VP8L signature `0x{Numeral.hex signature}` != `0x2f`"
  | repeatedTransform kind => s!"invalid duplicate {kind.text} transform"
  | invalidAlphaCompression method => s!"invalid alpha compression method `{method}`"
  | invalidAlphaPreprocessing level => s!"invalid alpha pre-processing `{level}`"
  | dimensionsMismatch image frame =>
    s!"bitstream dimensions {image.quoted} do not match frame dimensions {frame.quoted}"
  | parserNotCleared => "parser must be cleared after a fatal error"
  | sampleSizeZero => "sample size must be at least 1"
  | inputShorterThanFile => "input shorter than the parsed file"
  | notAdvanced => "call advance before requesting a frame"
  | remark words => words

end Note

end WebP
