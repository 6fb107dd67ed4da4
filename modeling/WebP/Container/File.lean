import WebP.Container.Assembly

/-!
# Reading a file

A file is a `RIFF` chunk whose payload begins with the code `WEBP` and goes on with chunks. The
declared length of the file is checked against the input before any chunk is read, so that an
input that is merely incomplete is told from one that is wrong.

## Main definitions

* `WebP.chunkSpan`: where the chunks of a file lie.
* `WebP.FileHeader.read`: the description of a file.
-/

namespace WebP

open Outcome (emit emitIf ensure)

/-- The bytes of a file that hold its chunks. -/
def chunkSpan (data : Bytes) : Parsed Span := do
  let minLength := RiffHeader.encodedLength + ChunkHeader.encodedLength
  ensure (minLength ≤ data.length) .needMoreData [.inputTooShort data.length]
  let riff ← (RiffHeader.read.ofStart data).noting (.readingChunk .riff)
  ensure (ChunkHeader.encodedLength ≤ riff.length) .invalidInput
    [.riffTooSmall, .readingChunk .riff]
  ensure (riff.length ≤ maxPayloadLength) .invalidInput [.riffTooLarge, .readingChunk .riff]
  let fileLength := riff.length + ChunkHeader.encodedLength
  ensure (fileLength ≤ data.length) .truncatedChunk
    [.fileTruncated fileLength data.length, .readingChunk .riff]
  emitIf (fileLength < data.length) (.bytesAfterFile (data.length - fileLength))
  emit (.chunk .riff 0 fileLength)
  return ⟨RiffHeader.encodedLength, fileLength⟩

/-- Reads the description of a file. -/
def FileHeader.read (config : Config) (data : Bytes) : Parsed FileHeader := do
  let span ← chunkSpan data
  let file ← (Walker.over data span).walk.fold (Assembly.add config) {}
  file.check
  return file.toHeader span.stop

end WebP
