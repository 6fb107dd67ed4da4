import WebP.Lossy.KeyFrame

/-!
# Detail of a lossy image

Behind its header, a lossy key frame continues with a run of bit fields on segments, loop
filtering and quantization. None of them is needed to describe an image; they are read for
diagnosis. The first partition is followed by a table of the sizes of the token partitions, of
which the last takes what is left.

## Main definitions

* `WebP.LossyDetail`, with `LossyDetail.read`.
* `WebP.LossyDetail.partitionSizes`: the sizes of the token partitions.
-/

namespace WebP

open BitStream (Read)

/-- Segment-based adjustments. -/
structure SegmentHeader where
  enabled : Bool := false
  updateMap : Bool := false
  updateData : Bool := false
  absoluteDelta : Bool := false
  /-- The quantizer of each of the four segments, where it is updated. -/
  quantizer : List (Option Int) := List.replicate 4 none
  /-- The filter strength of each of the four segments, where it is updated. -/
  filterStrength : List (Option Int) := List.replicate 4 none
  /-- The three probabilities of the segment map, 255 where not updated. -/
  probabilities : List Int := List.replicate 3 255
deriving DecidableEq, Repr, Inhabited

/-- The settings of the loop filter. -/
structure FilterHeader where
  simple : Bool
  level : Nat
  sharpness : Nat
  useDeltas : Bool
  updateDeltas : Bool := false
  /-- Four deltas for reference frames, then four for modes. -/
  deltas : List (Option Int) := List.replicate 8 none
deriving DecidableEq, Repr, Inhabited

/-- The quantizer indices. -/
structure QuantizerHeader where
  base : Nat
  /-- Deltas for Y1 DC, Y2 DC, Y2 AC, UV DC and UV AC. -/
  deltas : List (Option Int)
deriving DecidableEq, Repr, Inhabited

/-- The uncompressed fields behind the header of a lossy key frame. -/
structure LossyDetail where
  colorSpace : Nat
  clampType : Nat
  segment : SegmentHeader
  filter : FilterHeader
  /-- The length of each token partition in bytes. -/
  partitionSizes : List Nat
  quantizer : QuantizerHeader
deriving DecidableEq, Repr, Inhabited

namespace SegmentHeader

/-- Reads the quantizers and the filter strengths of the segments. -/
def readData (header : SegmentHeader) : Read SegmentHeader := do
  let absoluteDelta ← BitStream.flag
  let quantizer ← BitStream.repeated (BitStream.optional (BitStream.signed 7)) 4
  let filterStrength ← BitStream.repeated (BitStream.optional (BitStream.signed 6)) 4
  return { header with absoluteDelta, quantizer, filterStrength }

/-- Reads the probabilities of the segment map. -/
def readMap (header : SegmentHeader) : Read SegmentHeader := do
  let updates ← BitStream.repeated (BitStream.optional (BitStream.signed 8)) 3
  return { header with probabilities := updates.map (·.getD 255) }

/-- Reads the segment header, which is a single bit if segments are not used. -/
def read : Read SegmentHeader := do
  if ← BitStream.flag then
    let updateMap ← BitStream.flag
    let updateData ← BitStream.flag
    let header : SegmentHeader := { enabled := true, updateMap, updateData }
    let header ← if updateData then header.readData else pure header
    if updateMap then header.readMap else return header
  else
    return {}

end SegmentHeader

namespace FilterHeader

/-- Reads the settings of the loop filter. -/
def read : Read FilterHeader := do
  let simple ← BitStream.flag
  let level ← BitStream.field 6
  let sharpness ← BitStream.field 3
  let useDeltas ← BitStream.flag
  let header : FilterHeader := { simple, level, sharpness, useDeltas }
  if useDeltas then
    if ← BitStream.flag then
      let deltas ← BitStream.repeated (BitStream.optional (BitStream.signed 6)) 8
      return { header with updateDeltas := true, deltas }
    else
      return header
  else
    return header

end FilterHeader

namespace QuantizerHeader

/-- Reads the quantizer indices. -/
def read : Read QuantizerHeader := do
  let base ← BitStream.field 7
  let deltas ← BitStream.repeated (BitStream.optional (BitStream.signed 4)) 5
  return ⟨base, deltas⟩

end QuantizerHeader

namespace LossyDetail

/-- The sizes of `tableLength` token partitions from the table at the cursor, and of one more
partition, which takes what they leave of `left` bytes. That size is told in 32 bits. -/
def sizesFrom (fault : Fault) : (tableLength : Nat) → Cursor → (left : Nat) →
    Except Fault (List Nat)
  | 0, _, left => .ok [left % 0x100000000]
  | n + 1, cursor, left => do
    let (size, cursor) ← cursor.takeNat 3
    if size ≤ left then
      return size :: (← sizesFrom fault n cursor (left - size))
    else
      .error fault

/-- The sizes of the `count` token partitions behind a first partition of `partitionLength`
bytes at the start of `data`. -/
def partitionSizes? (data : Bytes) (partitionLength count : Nat) : Except Fault (List Nat) := do
  let table ← (Cursor.ofBytes data).skip partitionLength
  let tableLength := 3 * (count - 1)
  let fault : Fault :=
    ⟨.truncatedChunk, [.partitionsOutOfBounds count (data.length - partitionLength)]⟩
  if tableLength ≤ table.remaining then
    sizesFrom fault (count - 1) table (table.remaining - tableLength)
  else
    .error fault

/-- Reads the fields from the bytes behind the header of the key frame. -/
def readFields (data : Bytes) (partitionLength : Nat) : Read LossyDetail := do
  let colorSpace ← BitStream.field 1
  let clampType ← BitStream.field 1
  let segment ← SegmentHeader.read
  let filter ← FilterHeader.read
  let partitionCount := 1 <<< (← BitStream.field 2)
  let partitionSizes ← partitionSizes? data partitionLength partitionCount
  let quantizer ← QuantizerHeader.read
  BitStream.ensure ((← get).position / 8 < partitionLength) .truncatedChunk
    [.headerExceedsPartition]
  return { colorSpace, clampType, segment, filter, partitionSizes, quantizer }

/-- The detail in a payload whose header has been read. -/
def read (payload : Bytes) (header : KeyFrameHeader) : Except Fault LossyDetail :=
  let data := payload.drop KeyFrameHeader.encodedLength
  (readFields data header.partitionLength).run' (.ofBytes .mostSignificantFirst data)

end LossyDetail

end WebP
