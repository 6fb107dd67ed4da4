import WebP.BitStream
import WebP.Outcome

/-!
# The chain of transforms

The transforms of a lossless image are announced one after another, each by a set bit, its kind
and its size. The chain ends with a bit that is not set, or behind the first transform that has
an image of its own. No kind may occur twice.

## Main definitions

* `WebP.Chain`: the transforms that were read, and how the chain ended.
* `WebP.Chain.ofStream`: the chain at the head of a bit stream.
-/

namespace WebP

open BitStream (Read)

/-- The transforms that were read, and the bits behind them or why no more could be read. -/
structure Chain where
  transforms : List Transform
  ending : Except Fault BitStream

namespace Transform

/-- A block size, stored as an exponent. -/
def readBlockSize : Read Nat := do return 1 <<< (2 + (← BitStream.field 3))

/-- Reads the size of a transform of a kind. -/
def readSize : TransformKind → Read Transform
  | .predictor => return .predictor (← readBlockSize)
  | .crossColor => return .crossColor (← readBlockSize)
  | .subtractGreen => return .subtractGreen
  | .colorIndexing => return .colorIndexing ((← BitStream.field 8) + 1)

end Transform

namespace Chain

/-- Reads whether there is another transform, and its kind. -/
def nextKind : Read (Option TransformKind) := do
  if ← BitStream.flag then
    return some (.ofCode (← BitStream.field 2))
  else
    return none

/-- Each kind that is seen leaves fewer to be seen. -/
theorem length_erase_lt {unseen : List TransformKind} {kind : TransformKind}
    (h : kind ∈ unseen) : (unseen.erase kind).length < unseen.length := by
  rw [List.length_erase_of_mem h]
  have := List.length_pos_of_mem h
  omega

/-- The chain whose transforms are of the kinds in `unseen`. -/
def ofKinds (unseen : List TransformKind) (stream : BitStream) : Chain :=
  match nextKind stream with
  | .error fault => ⟨[], .error fault⟩
  | .ok (none, stream) => ⟨[], .ok stream⟩
  | .ok (some kind, stream) =>
    if _h : kind ∈ unseen then
      match BitStream.noting (.readingTransform kind) (Transform.readSize kind) stream with
      | .error fault => ⟨[], .error fault⟩
      | .ok (transform, stream) =>
        if transform.hasImage then
          ⟨[transform], .ok stream⟩
        else
          let following := ofKinds (unseen.erase kind) stream
          ⟨transform :: following.transforms, following.ending⟩
    else
      ⟨[], .error ⟨.invalidBitstream, [.repeatedTransform kind]⟩⟩
termination_by unseen.length
decreasing_by exact length_erase_lt _h

/-- The chain at the head of a bit stream. -/
def ofStream (stream : BitStream) : Chain := ofKinds TransformKind.all stream

/-- The transforms and the bits behind them; every transform that was read is in the log. -/
def outcome (chain : Chain) : Parsed (List Transform × BitStream) where
  result := chain.ending.map fun stream => (chain.transforms, stream)
  log := chain.transforms.map .transform

end Chain

end WebP
