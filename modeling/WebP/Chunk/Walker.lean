import WebP.Chunk.Header

/-!
# Walking the chunks of a file

A part of a file is a run of chunks, each a header, a payload and, after a payload of odd length,
a byte of padding, which may be missing at the very end. A walker stands in front of a chunk
header and steps from chunk to chunk without looking into the payloads.

## Main definitions

* `WebP.Chunk`: a chunk with its payload, and where in the file it begins.
* `WebP.Walker`: the bytes of a range that are still ahead, with `Walker.next`.
* `WebP.Walker.walk`: all chunks up to the end of the range or to the first fault, with
  `Walker.Walk.fold`, which takes them one after another.
* `WebP.Chunk.children`: a walker over the chunks inside a payload.

## Main results

* `WebP.Walker.rest_length_lt_of_next`: a step makes progress.
-/

namespace WebP

/-- A chunk of a file. -/
structure Chunk where
  kind : ChunkKind
  /-- The offset of the chunk header in the file. -/
  offset : Nat
  payload : Bytes
deriving DecidableEq, Repr, Inhabited

/-- What a directory of chunks says of one. -/
structure ChunkEntry where
  kind : ChunkKind
  /-- The offset of the chunk header in the file. -/
  offset : Nat
  /-- The length of the payload without padding. -/
  length : Nat
deriving DecidableEq, Repr, Inhabited

namespace ChunkEntry

/-- Where the payload lies in the file. -/
def payloadSpan (entry : ChunkEntry) : Span :=
  ⟨entry.offset + ChunkHeader.encodedLength,
    entry.offset + ChunkHeader.encodedLength + entry.length⟩

end ChunkEntry

namespace Chunk

/-- The entry of the chunk in a directory. -/
def entry (chunk : Chunk) : ChunkEntry := ⟨chunk.kind, chunk.offset, chunk.payload.length⟩

/-- Where the payload lies in the file. -/
def payloadSpan (chunk : Chunk) : Span := chunk.entry.payloadSpan

/-- Reads a structure from the start of the payload. -/
def read {α : Type} (chunk : Chunk) (reader : Cursor.Read α) : Parsed α :=
  (reader.ofStart chunk.payload).noting (.readingChunk chunk.kind.name)

end Chunk

/-- The part of a range of a file that is still ahead. -/
structure Walker where
  /-- The offset in the file of the first byte ahead. -/
  offset : Nat
  rest : Bytes
deriving DecidableEq, Repr, Inhabited

namespace Walker

/-- A walker over the bytes of a file that lie in a span. -/
def «over» (data : Bytes) (span : Span) : Walker :=
  let stop := min span.stop data.length
  let start := min span.start stop
  ⟨start, data.slice ⟨start, stop⟩⟩

/-- Whether bytes are ahead. -/
def hasMore (walker : Walker) : Bool := !walker.rest.isEmpty

/-- The next chunk and the walker behind it, or nothing at the end of the range. -/
def next (walker : Walker) : Except Fault (Option (Chunk × Walker)) :=
  if walker.rest = [] then
    .ok none
  else
    match ChunkHeader.split? walker.rest with
    | none => .error ⟨.truncatedChunk, []⟩
    | some (header, body) =>
      let start := walker.offset + ChunkHeader.encodedLength
      if maxPayloadLength < header.length then
        .error ⟨.invalidParam, [.payloadTooLarge header.length, .readingChunk header.name]⟩
      else if body.length < header.length then
        .error ⟨.truncatedChunk,
          [.payloadOutOfBounds header.length start body.length, .readingChunk header.name]⟩
      else
        .ok (some
          (⟨.ofFourCC header.name, walker.offset, body.take header.length⟩,
            ⟨start + min header.paddedLength body.length, body.drop header.paddedLength⟩))

/-- A step takes at least a chunk header from the bytes ahead. -/
theorem rest_length_lt_of_next {walker after : Walker} {chunk : Chunk}
    (h : walker.next = .ok (some (chunk, after))) : after.rest.length < walker.rest.length := by
  unfold next at h
  split at h
  · cases h
  · split at h
    · cases h
    · rename_i header body hs
      have hl := ChunkHeader.length_of_split? hs
      dsimp only at h
      split at h
      · cases h
      · split at h
        · cases h
        · cases h
          rw [hl, List.length_drop, ChunkHeader.encodedLength]
          omega

/-- The chunks of a range, and the fault that stopped the walk if it did not reach the end. -/
structure Walk where
  chunks : List Chunk
  fault : Option Fault
deriving DecidableEq, Repr

/-- Steps from chunk to chunk until the end of the range or the first fault. -/
def walk (walker : Walker) : Walk :=
  match _h : walker.next with
  | .error fault => ⟨[], some fault⟩
  | .ok none => ⟨[], none⟩
  | .ok (some (chunk, after)) =>
    let following := walk after
    ⟨chunk :: following.chunks, following.fault⟩
termination_by walker.rest.length
decreasing_by exact rest_length_lt_of_next _h

end Walker

/-- Takes each chunk of a walk in turn, and at the end the fault that stopped the walk. -/
def Walker.Walk.fold {σ : Type} (walk : Walker.Walk) (step : σ → Chunk → Parsed σ) (start : σ) :
    Parsed σ := do
  let state ← walk.chunks.foldlM step start
  match walk.fault with
  | none => return state
  | some fault => .error fault

/-- A walker over the chunks in a payload behind its first `headerLength` bytes. -/
def Chunk.children (chunk : Chunk) (headerLength : Nat) : Walker :=
  ⟨chunk.payloadSpan.start + min headerLength chunk.payload.length,
    chunk.payload.drop headerLength⟩

end WebP
