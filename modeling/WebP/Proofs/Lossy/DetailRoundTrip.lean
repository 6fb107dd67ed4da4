import Mathlib.Algebra.GroupWithZero.Nat
import Mathlib.Tactic.SplitIfs
import WebP.Lossy.Detail
import WebP.Proofs.BitStream.Takes
import WebP.Proofs.Cursor.Takes

/-!
# Writing the detail of a lossy image

The fields behind the header of a key frame are written one behind the other, each section only if
a flag in front asks for it. The format leaves some choices to the writer, none of which a reader
can see: the sign of a zero, and whether a probability of 255 is sent or left out. The fields end
inside the first partition, and what fills it up is not looked at.

## Main definitions

* `WebP.LossyDetail.IsWellFormed`: details that can be written.
* `WebP.LossyDetail.Choices`: what the format leaves to a writer.
* `WebP.LossyDetail.bits`, `WebP.LossyDetail.sizeTable`, `WebP.LossyDetail.write`: the fields, the
  table behind the first partition, and a payload with both of them.

## Main results

* `WebP.SegmentHeader.takes_read`, `WebP.FilterHeader.takes_read`,
  `WebP.QuantizerHeader.takes_read`: each section is read as it was written.
* `WebP.LossyDetail.sizesFrom_sizeTable`: the table of the partition sizes.
* `WebP.LossyDetail.read_write`: the detail of a payload is the one that was written.
-/

namespace WebP

open BitStream

namespace LossyDetail

/-- The order of the bits of a lossy bitstream. -/
abbrev order : BitOrder := .mostSignificantFirst

/-- What the format leaves to a writer, for each place in a list of numbers. -/
structure Choices where
  negatesQuantizer : Nat → Bool
  negatesFilterStrength : Nat → Bool
  negatesProbability : Nat → Bool
  /-- Whether a probability of 255 is left out. -/
  omitsProbability : Nat → Bool
  negatesFilterDelta : Nat → Bool
  negatesQuantizerDelta : Nat → Bool

end LossyDetail

open LossyDetail (order Choices)

/-! ### Segments -/

namespace SegmentHeader

/-- What the header of the segments does not update has its default, and what it updates fits. -/
structure IsWellFormed (header : SegmentHeader) : Prop where
  length_quantizer : header.quantizer.length = 4
  length_filterStrength : header.filterStrength.length = 4
  length_probabilities : header.probabilities.length = 3
  disabled : header.enabled = false → header = {}
  data_default : header.updateData = false →
    header.absoluteDelta = false ∧ header.quantizer = List.replicate 4 none ∧
      header.filterStrength = List.replicate 4 none
  map_default : header.updateMap = false → header.probabilities = List.replicate 3 255
  quantizer_fits : FitIn 7 header.quantizer
  filterStrength_fits : FitIn 6 header.filterStrength
  probabilities_le : ∀ probability ∈ header.probabilities, probability.natAbs ≤ 255

/-- The probabilities that are sent. -/
def sentProbabilities (header : SegmentHeader) (choices : Choices) : List (Option Int) :=
  header.probabilities.mapIdx fun i probability =>
    if probability = 255 ∧ choices.omitsProbability i then none else some probability

def dataBits (header : SegmentHeader) (choices : Choices) : List Bool :=
  [header.absoluteDelta] ++
    (order.optionalsBits 7 choices.negatesQuantizer header.quantizer ++
      order.optionalsBits 6 choices.negatesFilterStrength header.filterStrength)

def mapBits (header : SegmentHeader) (choices : Choices) : List Bool :=
  order.optionalsBits 8 choices.negatesProbability (header.sentProbabilities choices)

/-- The header of the segments, written. -/
def bits (header : SegmentHeader) (choices : Choices) : List Bool :=
  if header.enabled then
    [true] ++ ([header.updateMap] ++ ([header.updateData] ++
      ((if header.updateData then header.dataBits choices else []) ++
        if header.updateMap then header.mapBits choices else [])))
  else
    [false]

variable {header : SegmentHeader}

theorem takes_readData (h : header.IsWellFormed) (choices : Choices) (start : SegmentHeader) :
    Takes order start.readData (header.dataBits choices)
      { start with
        absoluteDelta := header.absoluteDelta
        quantizer := header.quantizer
        filterStrength := header.filterStrength } := by
  have hquantizer : Takes order (repeated (optional (signed 7)) 4) _ _ :=
    takes_optionals (by decide) choices.negatesQuantizer h.length_quantizer h.quantizer_fits
  have hstrength : Takes order (repeated (optional (signed 6)) 4) _ _ :=
    takes_optionals (by decide) choices.negatesFilterStrength h.length_filterStrength
      h.filterStrength_fits
  exact (takes_flag _).bind (hquantizer.bind (hstrength.map (takes_pure _)))

/-- A probability that was left out is 255. -/
theorem map_getD_sentProbabilities (header : SegmentHeader) (choices : Choices) :
    (header.sentProbabilities choices).map (·.getD 255) = header.probabilities := by
  refine List.ext_getElem (by rw [sentProbabilities, List.length_map, List.length_mapIdx]) ?_
  intro i hi hi'
  simp only [sentProbabilities, List.getElem_map, List.getElem_mapIdx]
  split_ifs with h
  · exact h.1.symm
  · rfl

theorem sentProbabilities_fit (h : header.IsWellFormed) (choices : Choices) :
    FitIn 8 (header.sentProbabilities choices) := by
  intro value hvalue present hpresent
  obtain ⟨i, hi, rfl⟩ := List.mem_mapIdx.mp hvalue
  split_ifs at hpresent with hsent
  · cases hpresent
  · obtain rfl := Option.some.inj hpresent
    exact Nat.lt_of_le_of_lt (h.probabilities_le _ (List.getElem_mem hi)) (by decide)

theorem takes_readMap (h : header.IsWellFormed) (choices : Choices) (start : SegmentHeader) :
    Takes order start.readMap (header.mapBits choices)
      { start with probabilities := header.probabilities } := by
  have hlength : (header.sentProbabilities choices).length = 3 := by
    rw [sentProbabilities, List.length_mapIdx, h.length_probabilities]
  refine (takes_optionals (by decide) choices.negatesProbability hlength
    (sentProbabilities_fit h choices)).map ?_
  rw [map_getD_sentProbabilities]
  exact takes_pure _

/-- Probabilities that are not updated keep their default. -/
theorem takes_map (h : header.IsWellFormed) (choices : Choices) {start : SegmentHeader}
    (hstart : start.probabilities = List.replicate 3 255) :
    Takes order (if header.updateMap then start.readMap else pure start)
      (if header.updateMap then header.mapBits choices else [])
      { start with probabilities := header.probabilities } := by
  cases hupdate : header.updateMap with
  | true => exact takes_readMap h choices start
  | false =>
    rw [h.map_default hupdate, ← hstart]
    exact takes_pure start

/-- The header of the segments is read as it was written. -/
theorem takes_read (h : header.IsWellFormed) (choices : Choices) :
    Takes order SegmentHeader.read (header.bits choices) header := by
  obtain ⟨enabled, updateMap, updateData, absoluteDelta, quantizer, filterStrength,
    probabilities⟩ := header
  cases enabled with
  | false =>
    rw [h.disabled rfl]
    exact (takes_flag false).map (takes_pure _)
  | true =>
    refine (takes_flag true).bind ((takes_flag updateMap).bind ((takes_flag updateData).bind ?_))
    cases updateData with
    | true => exact (takes_readData h choices _).bind (takes_map h choices rfl)
    | false =>
      obtain ⟨hdelta, hquantizer, hstrength⟩ := h.data_default rfl
      dsimp only at hdelta hquantizer hstrength
      subst hdelta hquantizer hstrength
      exact (takes_pure _).bind (takes_map h choices rfl)

end SegmentHeader

/-! ### Loop filter and quantizers -/

namespace FilterHeader

/-- Deltas are updated only if they are used, and are not there if they are not updated. -/
structure IsWellFormed (header : FilterHeader) : Prop where
  level_lt : header.level < 2 ^ 6
  sharpness_lt : header.sharpness < 2 ^ 3
  use_of_update : header.updateDeltas → header.useDeltas
  length_deltas : header.deltas.length = 8
  deltas_default : header.updateDeltas = false → header.deltas = List.replicate 8 none
  deltas_fit : FitIn 6 header.deltas

/-- The settings of the loop filter, written. -/
def bits (header : FilterHeader) (choices : Choices) : List Bool :=
  [header.simple] ++ (order.digits 6 header.level ++ (order.digits 3 header.sharpness ++
    ([header.useDeltas] ++
      if header.useDeltas then
        [header.updateDeltas] ++
          if header.updateDeltas then
            order.optionalsBits 6 choices.negatesFilterDelta header.deltas
          else []
      else [])))

variable {header : FilterHeader}

/-- The settings of the loop filter are read as they were written. -/
theorem takes_read (h : header.IsWellFormed) (choices : Choices) :
    Takes order FilterHeader.read (header.bits choices) header := by
  have hdeltas : Takes order (repeated (optional (signed 6)) 8) _ _ :=
    takes_optionals (by decide) choices.negatesFilterDelta h.length_deltas h.deltas_fit
  refine (takes_flag _).bind ((takes_field (by decide) h.level_lt).bind
    ((takes_field (by decide) h.sharpness_lt).bind ((takes_flag _).bind ?_)))
  obtain ⟨simple, level, sharpness, useDeltas, updateDeltas, deltas⟩ := header
  cases useDeltas with
  | false =>
    have hupdate : updateDeltas = false := by
      cases updateDeltas with
      | false => rfl
      | true => exact absurd (h.use_of_update rfl) Bool.false_ne_true
    subst hupdate
    obtain rfl : deltas = List.replicate 8 none := h.deltas_default rfl
    exact takes_pure _
  | true =>
    refine (takes_flag updateDeltas).bind ?_
    cases updateDeltas with
    | false =>
      obtain rfl : deltas = List.replicate 8 none := h.deltas_default rfl
      exact takes_pure _
    | true => exact hdeltas.map (takes_pure _)

end FilterHeader

namespace QuantizerHeader

structure IsWellFormed (header : QuantizerHeader) : Prop where
  base_lt : header.base < 2 ^ 7
  length_deltas : header.deltas.length = 5
  deltas_fit : FitIn 4 header.deltas

/-- The quantizer indices, written. -/
def bits (header : QuantizerHeader) (choices : Choices) : List Bool :=
  order.digits 7 header.base ++ order.optionalsBits 4 choices.negatesQuantizerDelta header.deltas

variable {header : QuantizerHeader}

/-- The quantizer indices are read as they were written. -/
theorem takes_read (h : header.IsWellFormed) (choices : Choices) :
    Takes order QuantizerHeader.read (header.bits choices) header := by
  have hdeltas : Takes order (repeated (optional (signed 4)) 5) _ _ :=
    takes_optionals (by decide) choices.negatesQuantizerDelta h.length_deltas h.deltas_fit
  exact (takes_field (by decide) h.base_lt).bind (hdeltas.map (takes_pure _))

end QuantizerHeader

/-! ### Partition sizes -/

namespace LossyDetail

/-- The sizes in front of the last one, in three bytes each. -/
def sizeTable (sizes : List Nat) : Bytes := sizes.dropLast.flatMap (Bytes.ofNatLE 3)

variable {front : List Nat} {last : Nat} {tail : Bytes}

/-- The sizes are read from their table, and the last one is what they leave. -/
theorem sizesFrom_sizeTable (fault : Fault) (hfront : ∀ size ∈ front, size < 2 ^ 24)
    (hlast : last < 2 ^ 32) {cursor : Cursor}
    (hrest : cursor.rest = front.flatMap (Bytes.ofNatLE 3) ++ tail) :
    sizesFrom fault front.length cursor (front.sum + last) = .ok (front ++ [last]) := by
  induction front generalizing cursor with
  | nil =>
    have hmod : last % 0x100000000 = last := Nat.mod_eq_of_lt hlast
    rw [List.sum_nil, Nat.zero_add, List.length_nil, sizesFrom, hmod, List.nil_append]
  | cons size front ih =>
    obtain ⟨hsize, hfront⟩ := List.forall_mem_cons.mp hfront
    rw [List.flatMap_cons, List.append_assoc] at hrest
    have htake := Cursor.takeNat_eq_ok hrest
    rw [Bytes.length_ofNatLE, Bytes.natLE_ofNatLE hsize] at htake
    have hnext := ih hfront (Cursor.rest_advanced hrest)
    rw [Bytes.length_ofNatLE] at hnext
    have hleft : size + front.sum + last - size = front.sum + last := by omega
    rw [List.length_cons, List.sum_cons, sizesFrom, htake]
    simp only [bind, Except.bind, pure, Except.pure]
    rw [if_pos (by omega), hleft, hnext]
    rfl

/-- The sizes of partitions that stand behind a first partition and the table. -/
theorem partitionSizes?_eq (first partitions : Bytes) (hfront : ∀ size ∈ front, size < 2 ^ 24)
    (hlast : last < 2 ^ 32) (hlength : partitions.length = (front ++ [last]).sum) :
    partitionSizes? (first ++ (sizeTable (front ++ [last]) ++ partitions)) first.length
      (front ++ [last]).length = .ok (front ++ [last]) := by
  rw [List.sum_append, List.sum_singleton] at hlength
  rw [sizeTable, List.dropLast_concat, List.length_append, List.length_singleton]
  generalize hdata : first ++ (front.flatMap (Bytes.ofNatLE 3) ++ partitions) = data
  let table : Cursor := { data, position := 0 + first.length }
  have hrest : table.rest = front.flatMap (Bytes.ofNatLE 3) ++ partitions := by
    change data.drop (0 + first.length) = _
    rw [← hdata, Nat.zero_add, List.drop_left]
  have hremaining : table.remaining = 3 * front.length + (front.sum + last) := by
    rw [Cursor.remaining_eq_length, hrest, List.length_append, Bytes.length_flatMap_ofNatLE,
      hlength]
  have hskip : (Cursor.ofBytes data).skip first.length = .ok table := by
    refine Cursor.skip_eq_ok_iff.mpr ⟨?_, rfl⟩
    rw [Cursor.remaining_eq_length, Cursor.rest, Cursor.ofBytes, List.drop_zero, ← hdata,
      List.length_append]
    omega
  rw [partitionSizes?, hskip]
  simp only [bind, Except.bind, Nat.add_sub_cancel, hremaining]
  rw [if_pos (Nat.le_add_right _ _), Nat.add_sub_cancel_left]
  exact sizesFrom_sizeTable _ hfront hlast hrest

/-! ### The whole detail -/

/-- Every number fits its field, and the sizes of the partitions fit the table. -/
structure IsWellFormed (detail : LossyDetail) : Prop where
  colorSpace_lt : detail.colorSpace < 2 ^ 1
  clampType_lt : detail.clampType < 2 ^ 1
  segment : detail.segment.IsWellFormed
  filter : detail.filter.IsWellFormed
  count : detail.partitionSizes.length ∈ [1, 2, 4, 8]
  sizes_lt : ∀ size ∈ detail.partitionSizes.dropLast, size < 2 ^ 24
  last_lt : ∀ size ∈ detail.partitionSizes.getLast?, size < 2 ^ 32
  quantizer : detail.quantizer.IsWellFormed

/-- The fields, written. The number of partitions is told by its logarithm. -/
def bits (detail : LossyDetail) (choices : Choices) : List Bool :=
  order.digits 1 detail.colorSpace ++ (order.digits 1 detail.clampType ++
    (detail.segment.bits choices ++ (detail.filter.bits choices ++
      (order.digits 2 detail.partitionSizes.length.log2 ++ detail.quantizer.bits choices))))

variable {detail : LossyDetail}

/-- The sizes are some in the table and one behind them. -/
theorem IsWellFormed.exists_partitionSizes_eq (h : detail.IsWellFormed) :
    ∃ front last, detail.partitionSizes = front ++ [last] ∧ (∀ size ∈ front, size < 2 ^ 24) ∧
      last < 2 ^ 32 := by
  have hne : detail.partitionSizes ≠ [] := by
    intro hnil
    have hcount := h.count
    rw [hnil] at hcount
    simp at hcount
  refine ⟨_, _, (List.dropLast_concat_getLast hne).symm, h.sizes_lt, h.last_lt _ ?_⟩
  rw [List.getLast?_eq_some_getLast hne]
  rfl

theorem IsWellFormed.log2_lt (h : detail.IsWellFormed) :
    detail.partitionSizes.length.log2 < 2 ^ 2 ∧
      1 <<< detail.partitionSizes.length.log2 = detail.partitionSizes.length := by
  have hcount := h.count
  simp only [List.mem_cons, List.not_mem_nil, or_false] at hcount
  rcases hcount with h | h | h | h <;> rw [h] <;> decide

/-- The fields are read as they were written, if they end inside the first partition. -/
theorem readFields_bits (h : detail.IsWellFormed) (choices : Choices) {data : Bytes}
    {partitionLength : Nat}
    (hsizes : partitionSizes? data partitionLength detail.partitionSizes.length =
      .ok detail.partitionSizes)
    (hfits : (detail.bits choices).length < 8 * partitionLength) (byteLength : Nat)
    (tail : List Bool) :
    readFields data partitionLength ⟨order, byteLength, 0, detail.bits choices ++ tail⟩ =
      .ok (detail, ⟨order, byteLength, (detail.bits choices).length, tail⟩) := by
  obtain ⟨hlt, hcount⟩ := h.log2_lt
  have hcolor : Takes order (field 1) _ _ := takes_field (by decide) h.colorSpace_lt
  have hclamp : Takes order (field 1) _ _ := takes_field (by decide) h.clampType_lt
  have hsegment := SegmentHeader.takes_read h.segment choices
  have hfilter := FilterHeader.takes_read h.filter choices
  have hlog : Takes order (field 2) _ _ := takes_field (by decide) hlt
  have hquantizer := QuantizerHeader.takes_read h.quantizer choices
  rw [bits] at hfits ⊢
  simp only [List.length_append] at hfits
  simp only [List.append_assoc, List.length_append]
  -- the sizes come from bytes behind the fields, so they take no bits between two sections
  rw [readFields, hcolor.run_bind, hclamp.run_bind, hsegment.run_bind, hfilter.run_bind,
    hlog.run_bind, hcount, hsizes, run_liftM_bind, hquantizer.run_bind, run_get_bind,
    run_ensure_bind (by dsimp only; omega)]
  simp only [Nat.zero_add, Nat.add_assoc]
  rfl

/-- A payload with the fields in its first partition, the table behind it, and the partitions. -/
def write (detail : LossyDetail) (choices : Choices) (partitionLength : Nat) (lead : Bytes)
    (filler : List Bool) (partitions : Bytes) : Bytes :=
  lead ++ (order.pack partitionLength (detail.bits choices ++ filler) ++
    (sizeTable detail.partitionSizes ++ partitions))

/-- **Reading undoes writing.** A detail is read back from a payload in which it was written,
whatever the format leaves open, and whatever fills up the first partition and stands around. -/
theorem read_write (h : detail.IsWellFormed) (choices : Choices) {header : KeyFrameHeader}
    {lead partitions : Bytes} {filler : List Bool}
    (hlead : lead.length = 10)
    (hfits : (detail.bits choices).length < 8 * header.partitionLength)
    (hfiller : (detail.bits choices).length + filler.length = 8 * header.partitionLength)
    (hpartitions : partitions.length = detail.partitionSizes.sum) :
    LossyDetail.read
        (detail.write choices header.partitionLength lead filler partitions) header =
      .ok detail := by
  obtain ⟨front, last, hsizes, hfront, hlast⟩ := h.exists_partitionSizes_eq
  have hfull : (detail.bits choices ++ filler).length = 8 * header.partitionLength := by
    rw [List.length_append, hfiller]
  have hdrop : (detail.write choices header.partitionLength lead filler partitions).drop
      KeyFrameHeader.encodedLength =
        order.pack header.partitionLength (detail.bits choices ++ filler) ++
          (sizeTable detail.partitionSizes ++ partitions) := List.drop_left' hlead
  have htable := partitionSizes?_eq
    (order.pack header.partitionLength (detail.bits choices ++ filler)) partitions hfront hlast
    (hsizes ▸ hpartitions)
  rw [← hsizes, BitOrder.length_pack] at htable
  rw [LossyDetail.read, hdrop, BitStream.ofBytes, List.flatMap_append,
    order.flatMap_bits_pack hfull, List.append_assoc, StateT.run',
    readFields_bits h choices htable hfits]
  rfl

/-- A detail with updated segments, a zero quantizer and two partitions. -/
def segmented : LossyDetail where
  colorSpace := 0
  clampType := 1
  segment :=
    { enabled := true
      updateMap := true
      updateData := true
      absoluteDelta := false
      quantizer := [some 5, none, some 0, some (-127)]
      filterStrength := [none, none, some (-63), none]
      probabilities := [255, -200, 255] }
  filter :=
    { simple := true
      level := 63
      sharpness := 7
      useDeltas := true
      updateDeltas := true
      deltas := [some 1, none, none, some (-1), none, none, none, some 0] }
  partitionSizes := [2, 3]
  quantizer := ⟨100, [none, some (-15), none, none, some 4]⟩

theorem isWellFormed_segmented : segmented.IsWellFormed where
  colorSpace_lt := by decide
  clampType_lt := by decide
  segment := by
    constructor
    all_goals decide
  filter := by
    constructor
    all_goals decide
  count := by decide
  sizes_lt := by decide
  last_lt := by decide
  quantizer := by
    constructor
    all_goals decide

/-- Its zeros are written with a minus sign, and the last probability is left out. -/
theorem read_write_segmented :
    LossyDetail.read
        (segmented.write
          { negatesQuantizer := fun _ => true
            negatesFilterStrength := fun _ => false
            negatesProbability := fun _ => false
            omitsProbability := fun i => i = 2
            negatesFilterDelta := fun _ => true
            negatesQuantizerDelta := fun _ => false }
          17 (List.replicate 10 0) (List.replicate 5 true) [1, 2, 3, 4, 5])
        { profile := 0, partitionLength := 17, size := ⟨1, 1⟩, horizontalScale := 0,
          verticalScale := 0 } =
      .ok segmented :=
  read_write isWellFormed_segmented _ rfl (by decide +kernel) (by decide +kernel) rfl

end LossyDetail

end WebP
