import WebP.Lossless.Header
import WebP.Lossy.Detail
import WebP.Proofs.BitStream.Source
import WebP.Proofs.Outcome.SameUpTo

/-!
# Headers on a reader of bits

The headers inside a bitstream ask for one field after another. Here they are read with what any
reader of bits offers, wherever it gets the bits from. On a reader that matches the bit streams
every header has the outcome that it has on a bit stream: the same value or the same fault, and a
state from which both can go on.

## Main definitions

* `WebP.BitReader.segmentHeader`, `WebP.BitReader.filterHeader`, `WebP.BitReader.quantizerHeader`,
  `WebP.BitReader.lossyDetail`: the detail of a lossy image and its parts.
* `WebP.BitReader.losslessFields`: the fields at the start of a lossless image.
* `WebP.BitReader.chain`: the transforms of a lossless image.

## Main results

* `WebP.BitReader.Matches.lossyDetail`, `WebP.BitReader.Matches.losslessFields`,
  `WebP.BitReader.Matches.chain`: on a reader that matches, each of them is what it is on a bit
  stream.
-/

namespace WebP

/-! ### The headers -/

namespace BitReader

variable {σ α : Type}

/-- A field a number of times. -/
def repeated (read : StateT σ (Except Fault) α) : Nat → StateT σ (Except Fault) (List α)
  | 0 => return []
  | n + 1 => do
    let a ← read
    return a :: (← repeated read n)

/-- Refuses what does not meet a condition. -/
def ensure (condition : Prop) [Decidable condition] (cause : Cause) (notes : List Note) :
    StateT σ (Except Fault) Unit :=
  if condition then pure () else throw ⟨cause, notes⟩

variable (reader : BitReader σ)

/-- The quantizers and the filter strengths of the segments. -/
def segmentData (header : SegmentHeader) : StateT σ (Except Fault) SegmentHeader := do
  let absoluteDelta ← reader.bit
  let quantizer ← repeated (reader.optional (reader.signed 7)) 4
  let filterStrength ← repeated (reader.optional (reader.signed 6)) 4
  return { header with absoluteDelta, quantizer, filterStrength }

/-- The probabilities of the segment map. -/
def segmentMap (header : SegmentHeader) : StateT σ (Except Fault) SegmentHeader := do
  let updates ← repeated (reader.optional (reader.signed 8)) 3
  return { header with probabilities := updates.map (·.getD 255) }

/-- The segment header, which is a single bit if segments are not used. -/
def segmentHeader : StateT σ (Except Fault) SegmentHeader := do
  if ← reader.bit then
    let updateMap ← reader.bit
    let updateData ← reader.bit
    let header : SegmentHeader := { enabled := true, updateMap, updateData }
    let header ← if updateData then reader.segmentData header else pure header
    if updateMap then reader.segmentMap header else return header
  else
    return {}

/-- The settings of the loop filter. -/
def filterHeader : StateT σ (Except Fault) FilterHeader := do
  let simple ← reader.bit
  let level ← reader.number 6
  let sharpness ← reader.number 3
  let useDeltas ← reader.bit
  let header : FilterHeader := { simple, level, sharpness, useDeltas }
  if useDeltas then
    if ← reader.bit then
      let deltas ← repeated (reader.optional (reader.signed 6)) 8
      return { header with updateDeltas := true, deltas }
    else
      return header
  else
    return header

/-- The quantizer indices. -/
def quantizerHeader : StateT σ (Except Fault) QuantizerHeader := do
  let base ← reader.number 7
  let deltas ← repeated (reader.optional (reader.signed 4)) 5
  return ⟨base, deltas⟩

/-- The fields behind the header of a lossy key frame, from the bytes that they stand in. -/
def lossyDetail (data : Bytes) (partitionLength : Nat) : StateT σ (Except Fault) LossyDetail := do
  let colorSpace ← reader.number 1
  let clampType ← reader.number 1
  let segment ← reader.segmentHeader
  let filter ← reader.filterHeader
  let partitionCount := 1 <<< (← reader.number 2)
  let partitionSizes ← LossyDetail.partitionSizes? data partitionLength partitionCount
  let quantizer ← reader.quantizerHeader
  ensure ((← reader.position) / 8 < partitionLength) .truncatedChunk [.headerExceedsPartition]
  return { colorSpace, clampType, segment, filter, partitionSizes, quantizer }

/-- The size, the use of alpha and the version of a lossless image. -/
def losslessFields : StateT σ (Except Fault) (Size × Bool × Nat) := do
  let width ← reader.number 14
  let height ← reader.number 14
  let alphaIsUsed ← reader.bit
  let version ← reader.number 3
  return (⟨width + 1, height + 1⟩, alphaIsUsed, version)

/-- Whether there is another transform, and its kind. -/
def nextKind : StateT σ (Except Fault) (Option TransformKind) := do
  if ← reader.bit then
    return some (.ofCode (← reader.number 2))
  else
    return none

/-- A block size, stored as an exponent. -/
def blockSize : StateT σ (Except Fault) Nat := do return 1 <<< (2 + (← reader.number 3))

/-- The size of a transform of a kind. -/
def transformSize : TransformKind → StateT σ (Except Fault) Transform
  | .predictor => return .predictor (← reader.blockSize)
  | .crossColor => return .crossColor (← reader.blockSize)
  | .subtractGreen => return .subtractGreen
  | .colorIndexing => return .colorIndexing ((← reader.number 8) + 1)

/-- The transforms that were read, and the state behind them or why no more could be read. -/
structure TransformRun (σ : Type) where
  transforms : List Transform
  ending : Except Fault σ

/-- The transforms and the state behind them; every transform that was read is in the log. -/
def TransformRun.outcome (run : TransformRun σ) : Parsed (List Transform × σ) where
  result := run.ending.map fun s => (run.transforms, s)
  log := run.transforms.map .transform

/-- The chain whose transforms are of the kinds in `unseen`. -/
def chainOfKinds (unseen : List TransformKind) (s : σ) : TransformRun σ :=
  match reader.nextKind s with
  | .error fault => ⟨[], .error fault⟩
  | .ok (none, s) => ⟨[], .ok s⟩
  | .ok (some kind, s) =>
    if _h : kind ∈ unseen then
      match (reader.transformSize kind s).mapError (·.noting (.readingTransform kind)) with
      | .error fault => ⟨[], .error fault⟩
      | .ok (transform, s) =>
        if transform.hasImage then
          ⟨[transform], .ok s⟩
        else
          let following := chainOfKinds (unseen.erase kind) s
          ⟨transform :: following.transforms, following.ending⟩
    else
      ⟨[], .error ⟨.invalidBitstream, [.repeatedTransform kind]⟩⟩
termination_by unseen.length
decreasing_by exact Chain.length_erase_lt _h

/-- The chain of transforms that the reader comes to. -/
def chain (s : σ) : TransformRun σ := reader.chainOfKinds TransformKind.all s

end BitReader

/-! ### Steps that are alike -/

section Alike

variable {σ τ α β : Type} {R : σ → τ → Prop}

theorem alike_liftM (x : Except Fault α) : Alike R (liftM x) (liftM x) := by
  intro s t hst
  cases x with
  | error fault => exact .inr ⟨fault, rfl, rfl⟩
  | ok a => exact .inl ⟨a, s, t, rfl, rfl, hst⟩

/-- The results are the same up to the states. -/
theorem Alike.sameUpTo {left : StateT σ (Except Fault) α} {right : StateT τ (Except Fault) α}
    (h : Alike R left right) {s : σ} {t : τ} (hst : R s t) :
    SameUpTo (fun p q => p.1 = q.1 ∧ R p.2 q.2) (left s) (right t) := by
  rcases h hst with ⟨a, s', t', hs, ht, hst'⟩ | ⟨fault, hs, ht⟩
  · rw [hs, ht]
    exact .ok ⟨rfl, hst'⟩
  · rw [hs, ht]
    exact .error fault

/-- Without the states the results are the same. -/
theorem Alike.run'_eq {left : StateT σ (Except Fault) α} {right : StateT τ (Except Fault) α}
    (h : Alike R left right) {s : σ} {t : τ} (hst : R s t) : left.run' s = right.run' t := by
  change Prod.fst <$> left s = Prod.fst <$> right t
  rcases h hst with ⟨a, s', t', hs, ht, -⟩ | ⟨fault, hs, ht⟩
  · rw [hs, ht]
    rfl
  · rw [hs, ht]
    rfl

end Alike

namespace BitReader

variable {σ α : Type} {R : σ → BitStream → Prop} {reader : BitReader σ}

theorem alike_repeated {read : StateT σ (Except Fault) α} {read' : BitStream.Read α}
    (h : Alike R read read') (n : Nat) :
    Alike R (repeated read n) (BitStream.repeated read' n) := by
  induction n with
  | zero => exact alike_pure []
  | succ n ih => exact h.bind fun a => ih.bind fun as => alike_pure (a :: as)

theorem alike_ensure (p : Prop) [Decidable p] (cause : Cause) (notes : List Note) :
    Alike R (ensure p cause notes) (BitStream.ensure p cause notes) := by
  by_cases hp : p
  · rw [ensure, BitStream.ensure, if_pos hp, if_pos hp]
    exact alike_pure ()
  · rw [ensure, BitStream.ensure, if_neg hp, if_neg hp]
    exact alike_liftM (.error ⟨cause, notes⟩)

/-! ### Headers that are alike -/

namespace Matches

theorem optionalsSigned (h : reader.Matches R BitStream.reader) {width : Nat} (hwidth : width ≤ 31)
    (n : Nat) :
    Alike R (repeated (reader.optional (reader.signed width)) n)
      (BitStream.repeated (BitStream.optional (BitStream.signed width)) n) :=
  alike_repeated (h.optional (h.signed hwidth)) n

theorem segmentData (h : reader.Matches R BitStream.reader) (header : SegmentHeader) :
    Alike R (reader.segmentData header) header.readData := by
  refine h.bit.bind fun absoluteDelta => ?_
  refine (h.optionalsSigned (by decide) 4).bind fun quantizer => ?_
  exact (h.optionalsSigned (by decide) 4).bind fun filterStrength => alike_pure _

theorem segmentMap (h : reader.Matches R BitStream.reader) (header : SegmentHeader) :
    Alike R (reader.segmentMap header) header.readMap :=
  (h.optionalsSigned (by decide) 3).bind fun updates => alike_pure _

theorem segmentHeader (h : reader.Matches R BitStream.reader) :
    Alike R reader.segmentHeader SegmentHeader.read := by
  refine h.bit.bind fun enabled => ?_
  cases enabled with
  | false => exact alike_pure _
  | true =>
    refine h.bit.bind fun updateMap => h.bit.bind fun updateData => ?_
    have hmap (header : SegmentHeader) :
        Alike R (if updateMap then reader.segmentMap header else pure header)
          (if updateMap then header.readMap else pure header) := by
      cases updateMap with
      | false => exact alike_pure header
      | true => exact h.segmentMap header
    cases updateData with
    | false => exact (alike_pure _).bind hmap
    | true => exact (h.segmentData _).bind hmap

theorem filterHeader (h : reader.Matches R BitStream.reader) :
    Alike R reader.filterHeader FilterHeader.read := by
  refine h.bit.bind fun simple => (h.number (by decide)).bind fun level => ?_
  refine (h.number (by decide)).bind fun sharpness => h.bit.bind fun useDeltas => ?_
  cases useDeltas with
  | false => exact alike_pure _
  | true =>
    refine h.bit.bind fun updateDeltas => ?_
    cases updateDeltas with
    | false => exact alike_pure _
    | true => exact (h.optionalsSigned (by decide) 8).bind fun deltas => alike_pure _

theorem quantizerHeader (h : reader.Matches R BitStream.reader) :
    Alike R reader.quantizerHeader QuantizerHeader.read := by
  refine (h.number (by decide)).bind fun base => ?_
  exact (h.optionalsSigned (by decide) 5).bind fun deltas => alike_pure _

/-- **The detail of a lossy image.** It has the outcome that it has on a bit stream. -/
theorem lossyDetail (h : reader.Matches R BitStream.reader) (data : Bytes) (partitionLength : Nat) :
    Alike R (reader.lossyDetail data partitionLength)
      (LossyDetail.readFields data partitionLength) := by
  refine (h.number (by decide)).bind fun colorSpace => ?_
  refine (h.number (by decide)).bind fun clampType => ?_
  refine h.segmentHeader.bind fun segment => h.filterHeader.bind fun filter => ?_
  refine (h.number (by decide)).bind fun log2Count => ?_
  refine (alike_liftM _).bind fun partitionSizes => h.quantizerHeader.bind fun quantizer => ?_
  -- on a bit stream the position is asked of the state
  change Alike R _ (BitStream.reader.position >>= fun position =>
    BitStream.ensure (position / 8 < partitionLength) .truncatedChunk
      [.headerExceedsPartition] >>= fun _ => pure _)
  exact h.position.bind fun position => (alike_ensure _ _ _).bind fun _ => alike_pure _

/-- **The fields at the start of a lossless image.** They have the outcome that they have on a bit
stream. -/
theorem losslessFields (h : reader.Matches R BitStream.reader) :
    Alike R reader.losslessFields LosslessHeader.readFields := by
  refine (h.number (by decide)).bind fun width => (h.number (by decide)).bind fun height => ?_
  exact h.bit.bind fun alphaIsUsed => (h.number (by decide)).bind fun version => alike_pure _

theorem nextKind (h : reader.Matches R BitStream.reader) :
    Alike R reader.nextKind Chain.nextKind := by
  refine h.bit.bind fun another => ?_
  cases another with
  | false => exact alike_pure none
  | true => exact (h.number (by decide)).bind fun code => alike_pure _

theorem blockSize (h : reader.Matches R BitStream.reader) :
    Alike R reader.blockSize Transform.readBlockSize :=
  (h.number (by decide)).bind fun exponent => alike_pure _

theorem transformSize (h : reader.Matches R BitStream.reader) (kind : TransformKind) :
    Alike R (reader.transformSize kind) (Transform.readSize kind) := by
  cases kind with
  | predictor => exact h.blockSize.bind fun size => alike_pure _
  | crossColor => exact h.blockSize.bind fun size => alike_pure _
  | subtractGreen => exact alike_pure _
  | colorIndexing => exact (h.number (by decide)).bind fun size => alike_pure _

end Matches

/-- A run of transforms is like a chain: the same transforms, and an ending that is the same up to
the state. -/
structure TransformRun.IsLike (R : σ → BitStream → Prop) (run : TransformRun σ) (chain : Chain) :
    Prop where
  transforms : run.transforms = chain.transforms
  ending : SameUpTo R run.ending chain.ending

/-- The log is the same, and so is the result up to the state. -/
theorem TransformRun.IsLike.outcome {run : TransformRun σ} {chain : Chain}
    (h : run.IsLike R chain) :
    run.outcome.log = chain.outcome.log ∧
      SameUpTo (fun p q => p.1 = q.1 ∧ R p.2 q.2) run.outcome.result chain.outcome.result := by
  obtain ⟨transforms, ending⟩ := run
  obtain ⟨transforms', ending'⟩ := chain
  obtain ⟨htransforms, hending⟩ := h
  obtain rfl : transforms = transforms' := htransforms
  refine ⟨rfl, ?_⟩
  cases hending with
  | error fault => exact .error fault
  | ok hst => exact .ok ⟨rfl, hst⟩

namespace Matches

/-- A run of transforms of kinds in `unseen`. Each transform takes its kind away. -/
theorem chainOfKinds (h : reader.Matches R BitStream.reader) (unseen : List TransformKind) {s : σ}
    {t : BitStream} (hst : R s t) :
    (reader.chainOfKinds unseen s).IsLike R (Chain.ofKinds unseen t) := by
  rw [BitReader.chainOfKinds, Chain.ofKinds]
  rcases h.nextKind hst with ⟨next, s₁, t₁, hs, ht, hst₁⟩ | ⟨fault, hs, ht⟩
  · rw [hs, ht]
    cases next with
    | none => exact ⟨rfl, .ok hst₁⟩
    | some kind =>
      dsimp only
      by_cases hunseen : kind ∈ unseen
      · rw [dif_pos hunseen, dif_pos hunseen, BitStream.noting]
        rcases h.transformSize kind hst₁ with ⟨transform, s₂, t₂, hs, ht, hst₂⟩ | ⟨fault, hs, ht⟩
        · rw [hs, ht]
          dsimp only [Except.mapError]
          cases transform.hasImage with
          | true => exact ⟨rfl, .ok hst₂⟩
          | false =>
            have hfollowing := chainOfKinds h (unseen.erase kind) hst₂
            exact ⟨congrArg (transform :: ·) hfollowing.transforms, hfollowing.ending⟩
        · rw [hs, ht]
          exact ⟨rfl, .error _⟩
      · rw [dif_neg hunseen, dif_neg hunseen]
        exact ⟨rfl, .error _⟩
  · rw [hs, ht]
    exact ⟨rfl, .error fault⟩
termination_by unseen.length
decreasing_by exact Chain.length_erase_lt hunseen

/-- **The transforms of a lossless image.** They are the chain on a bit stream, and the state behind
them is the same. -/
theorem chain (h : reader.Matches R BitStream.reader) {s : σ} {t : BitStream} (hst : R s t) :
    (reader.chain s).IsLike R (Chain.ofStream t) :=
  h.chainOfKinds TransformKind.all hst

end Matches

end BitReader

end WebP
