import Mathlib.Algebra.GroupWithZero.Nat
import WebP.Proofs.BitStream.Local
import WebP.Proofs.Bytes.Slices
import WebP.Proofs.Lossy.Guarded

/-!
# The partitions of a lossy image

Two readers go over the bytes behind the header of a key frame: one reads bits from their start,
and the other one reads the table of partition sizes behind the first partition. A detail that was
read accounts for every byte: the header, the first partition, the table and the token partitions
make up the payload, and the bits that were read end inside the first partition.

## Main definitions

* `WebP.LossyDetail.AccountsFor`: what a detail says of its payload.
* `WebP.LossyDetail.StaysInRange`: what the read of a detail does, and what it yields.

## Main results

* `WebP.LossyDetail.sizesFrom_eq_ok`, `WebP.LossyDetail.partitionSizes?_eq_ok`: the partition
  sizes that are read.
* `WebP.LossyDetail.exists_taken_of_readFields`: the bits that are read.
* `WebP.LossyDetail.staysInRange_read`: nothing is read out of its range, and every byte is
  accounted for.
-/

namespace WebP

open BitStream

theorem exists_of_bind_eq_ok {α β : Type} {x : Except Fault α} {f : α → Except Fault β} {b : β}
    (h : x >>= f = .ok b) : ∃ a, x = .ok a ∧ f a = .ok b := by
  cases x with
  | error fault => cases h
  | ok a => exact ⟨a, rfl, h⟩

/-! ### The fields are local -/

theorem SegmentHeader.isLocal_readData (header : SegmentHeader) : IsLocal header.readData :=
  isLocal_flag.bind fun _ => (isLocal_optionals 7 4).bind fun _ =>
    (isLocal_optionals 6 4).bind fun _ => isLocal_pure _

theorem SegmentHeader.isLocal_readMap (header : SegmentHeader) : IsLocal header.readMap :=
  (isLocal_optionals 8 3).bind fun _ => isLocal_pure _

theorem SegmentHeader.isLocal_read : IsLocal SegmentHeader.read := by
  have hmap (updateMap : Bool) (header : SegmentHeader) :
      IsLocal (if updateMap then header.readMap else pure header) :=
    isLocal_ite (isLocal_readMap header) (isLocal_pure header)
  refine isLocal_flag.bind fun _ => isLocal_ite ?_ (isLocal_pure _)
  exact isLocal_flag.bind fun updateMap => isLocal_flag.bind fun _ =>
    isLocal_ite ((isLocal_readData _).bind (hmap updateMap))
      ((isLocal_pure _).bind (hmap updateMap))

theorem FilterHeader.isLocal_read : IsLocal FilterHeader.read := by
  refine isLocal_flag.bind fun _ => (isLocal_field 6).bind fun _ => (isLocal_field 3).bind fun _ =>
    isLocal_flag.bind fun _ => isLocal_ite ?_ (isLocal_pure _)
  exact isLocal_flag.bind fun _ =>
    isLocal_ite ((isLocal_optionals 6 8).bind fun _ => isLocal_pure _) (isLocal_pure _)

theorem QuantizerHeader.isLocal_read : IsLocal QuantizerHeader.read :=
  (isLocal_field 7).bind fun _ => (isLocal_optionals 4 5).bind fun _ => isLocal_pure _

namespace LossyDetail

/-! ### The table of sizes -/

variable {data : Bytes} {partitionLength count n left : Nat} {fault : Fault} {cursor : Cursor}
  {sizes : List Nat} {detail : LossyDetail}

/-- The number in the place `i` of a table of numbers of three bytes. -/
def tableEntry (data : Bytes) (start i : Nat) : Nat :=
  (data.slice ⟨start + 3 * i, start + 3 * i + 3⟩).natLE

theorem tableEntry_zero (cursor : Cursor) :
    tableEntry cursor.data cursor.position 0 = Bytes.natLE (cursor.rest.take 3) := by
  rw [tableEntry, Nat.mul_zero, Nat.add_zero, Cursor.slice_position]

theorem tableEntry_succ (data : Bytes) (start i : Nat) :
    tableEntry data start (i + 1) = tableEntry data (start + 3) i := by
  have hstart : start + 3 * (i + 1) = start + 3 + 3 * i := by omega
  rw [tableEntry, tableEntry, hstart]

/-- The sizes are the entries of the table and what they leave. -/
theorem sizesFrom_eq_ok (hleft : left < 2 ^ 32) (h : sizesFrom fault n cursor left = .ok sizes) :
    sizes.length = n + 1 ∧ sizes.sum = left ∧
      ∀ i < n, sizes[i]? = some (tableEntry cursor.data cursor.position i) := by
  induction n generalizing cursor left sizes with
  | zero =>
    obtain rfl := Except.ok.inj h
    have hmod : left % 0x100000000 = left := Nat.mod_eq_of_lt hleft
    rw [hmod]
    exact ⟨rfl, List.sum_singleton, fun i hi => absurd hi (Nat.not_lt_zero i)⟩
  | succ n ih =>
    -- the first size is taken away from what is left, and the cursor moves to the next entry
    obtain ⟨⟨size, next⟩, htake, h⟩ := exists_of_bind_eq_ok h
    obtain ⟨-, hsize, rfl⟩ := Cursor.takeNat_eq_ok_iff.mp htake
    dsimp only at h
    split_ifs at h with hle
    obtain ⟨rest, hrest, h⟩ := exists_of_bind_eq_ok h
    obtain rfl := Except.ok.inj h
    obtain ⟨hlength, hsum, hentries⟩ := ih (by omega) hrest
    refine ⟨congrArg (· + 1) hlength, ?_, ?_⟩
    · rw [List.sum_cons, hsum, Nat.add_sub_cancel' hle]
    · intro i hi
      cases i with
      | zero => rw [List.getElem?_cons_zero, hsize, tableEntry_zero]
      | succ i =>
        rw [List.getElem?_cons_succ, hentries i (Nat.lt_of_succ_lt_succ hi), tableEntry_succ]

/-- The first partition, the table and the partitions of these sizes make up the data. -/
theorem partitionSizes?_eq_ok (hdata : data.length < 2 ^ 32) (hcount : 1 ≤ count)
    (h : partitionSizes? data partitionLength count = .ok sizes) :
    sizes.length = count ∧ partitionLength + 3 * (count - 1) + sizes.sum = data.length ∧
      ∀ i < count - 1, sizes[i]? = some (tableEntry data partitionLength i) := by
  obtain ⟨table, hskip, h⟩ := exists_of_bind_eq_ok h
  obtain ⟨hle, rfl⟩ := Cursor.skip_eq_ok_iff.mp hskip
  dsimp only at h
  split_ifs at h with htable
  have hlength : partitionLength ≤ data.length := hle
  dsimp only [Cursor.ofBytes, Cursor.remaining] at h htable
  rw [Nat.zero_add] at h htable
  obtain ⟨hcounted, hsum, hentries⟩ := sizesFrom_eq_ok (by omega) h
  exact ⟨by omega, by omega, hentries⟩

/-! ### The bits of the fields -/

/-- The fields that were read are those of some bits, which end inside the first partition. -/
theorem exists_taken_of_readFields {order : BitOrder} {byteLength : Nat} {bits : List Bool}
    {after : BitStream}
    (h : readFields data partitionLength ⟨order, byteLength, 0, bits⟩ = .ok (detail, after)) :
    (∃ k < 4, partitionSizes? data partitionLength (1 <<< k) = .ok detail.partitionSizes) ∧
      ∃ taken tail, bits = taken ++ tail ∧ taken.length < 8 * partitionLength ∧
        ∀ byteLength tail, readFields data partitionLength ⟨order, byteLength, 0, taken ++ tail⟩ =
          .ok (detail, ⟨order, byteLength, taken.length, tail⟩) := by
  rw [readFields] at h
  obtain ⟨colorSpace, t₁, bits, rfl, h₁, h⟩ := (isLocal_field 1).exists_of_bind h
  obtain ⟨clampType, t₂, bits, rfl, h₂, h⟩ := (isLocal_field 1).exists_of_bind h
  obtain ⟨segment, t₃, bits, rfl, h₃, h⟩ := SegmentHeader.isLocal_read.exists_of_bind h
  obtain ⟨filter, t₄, bits, rfl, h₄, h⟩ := FilterHeader.isLocal_read.exists_of_bind h
  obtain ⟨k, t₅, bits, rfl, h₅, h⟩ := (isLocal_field 2).exists_of_bind h
  -- the sizes are read by the other reader, and no bits are taken for them
  obtain ⟨sizes, hsizes, h⟩ := exists_of_liftM_bind h
  obtain ⟨quantizer, t₆, tail, rfl, h₆, h⟩ := QuantizerHeader.isLocal_read.exists_of_bind h
  rw [run_get_bind] at h
  obtain ⟨hfits, h⟩ := of_ensure_bind h
  obtain ⟨rfl, -⟩ := Prod.mk.inj (Except.ok.inj h)
  refine ⟨⟨k, lt_of_takes_field h₅, hsizes⟩, t₁ ++ (t₂ ++ (t₃ ++ (t₄ ++ (t₅ ++ t₆)))), tail,
    by simp only [List.append_assoc], ?_, fun byteLength tail => ?_⟩
  · simp only [List.length_append]
    dsimp only at hfits
    omega
  · simp only [List.append_assoc, List.length_append]
    dsimp only at hfits
    rw [readFields, h₁.run_bind, h₂.run_bind, h₃.run_bind, h₄.run_bind, h₅.run_bind, hsizes,
      run_liftM_bind, h₆.run_bind, run_get_bind, run_ensure_bind hfits]
    simp only [Nat.zero_add, Nat.add_assoc]
    rfl

/-! ### The whole payload -/

/-- What a detail says of its payload, in which the first partition has a given length. -/
structure AccountsFor (detail : LossyDetail) (payload : Bytes) (partitionLength : Nat) : Prop where
  count_mem : detail.partitionSizes.length ∈ [1, 2, 4, 8]
  /-- The header, the first partition, the table and the token partitions make up the payload. -/
  length_eq : 10 + partitionLength + 3 * (detail.partitionSizes.length - 1) +
    detail.partitionSizes.sum = payload.length
  entries_eq : ∀ i < detail.partitionSizes.length - 1,
    detail.partitionSizes[i]? = some (tableEntry payload (10 + partitionLength) i)
  /-- The fields are read from bits that end inside the first partition, and from no other ones. -/
  fields_inside : ∃ taken, taken.length < 8 * partitionLength ∧
    taken <+: (payload.slice ⟨10, 10 + partitionLength⟩).flatMap
      BitOrder.mostSignificantFirst.bits ∧
    ∀ byteLength tail, readFields (payload.drop 10) partitionLength
      ⟨.mostSignificantFirst, byteLength, 0, taken ++ tail⟩ =
        .ok (detail, ⟨.mostSignificantFirst, byteLength, taken.length, tail⟩)

/-- The read of a detail keeps to its ranges, and accounts for every byte if it succeeds. -/
structure StaysInRange (payload : Bytes) (header : KeyFrameHeader) : Prop where
  guarded : Guarded.read payload header = .ofExcept (LossyDetail.read payload header)
  accounts : ∀ detail, LossyDetail.read payload header = .ok detail →
    detail.AccountsFor payload header.partitionLength

theorem exists_readFields_of_read {payload : Bytes} {header : KeyFrameHeader}
    (h : LossyDetail.read payload header = .ok detail) :
    ∃ after, readFields (payload.drop 10) header.partitionLength
      (.ofBytes .mostSignificantFirst (payload.drop 10)) = .ok (detail, after) := by
  rw [LossyDetail.read, KeyFrameHeader.encodedLength, StateT.run'] at h
  cases hfields : readFields (payload.drop 10) header.partitionLength
      (.ofBytes .mostSignificantFirst (payload.drop 10)) with
  | error fault =>
    rw [hfields] at h
    cases h
  | ok found =>
    rw [hfields] at h
    obtain ⟨read, after⟩ := found
    obtain rfl : read = detail := Except.ok.inj h
    exact ⟨after, rfl⟩

/-- A detail that was read accounts for its payload. -/
theorem accountsFor_of_read {payload : Bytes} {header : KeyFrameHeader}
    (hpayload : payload.length < 2 ^ 32) (h : LossyDetail.read payload header = .ok detail) :
    detail.AccountsFor payload header.partitionLength := by
  obtain ⟨after, hfields⟩ := exists_readFields_of_read h
  obtain ⟨⟨k, hk, hsizes⟩, taken, tail, hbits, hlt, htaken⟩ := exists_taken_of_readFields hfields
  have hcount : 1 ≤ 1 <<< k := Nat.one_shiftLeft k ▸ Nat.one_le_two_pow
  have hcounts : ∀ k < 4, 1 <<< k ∈ [1, 2, 4, 8] := by decide
  have hdata : (payload.drop 10).length = payload.length - 10 := List.length_drop
  obtain ⟨hlength, hsum, hentries⟩ := partitionSizes?_eq_ok (by omega) hcount hsizes
  refine ⟨?_, ?_, ?_, taken, hlt, ?_, htaken⟩
  · rw [hlength]
    exact hcounts k hk
  · rw [hlength]
    omega
  · intro i hi
    rw [hlength] at hi
    rw [hentries i hi, tableEntry, tableEntry, Bytes.slice_drop]
    simp only [Nat.add_assoc]
  · have hfirst : payload.slice ⟨10, 10 + header.partitionLength⟩ =
        (payload.drop 10).take header.partitionLength := by
      rw [Bytes.slice]
      dsimp only
      rw [Nat.add_sub_cancel_left]
    rw [hfirst, BitOrder.flatMap_bits_take, hbits, List.prefix_take_iff]
    exact ⟨List.prefix_append taken tail, Nat.le_of_lt hlt⟩

/-- **Nothing is read out of its range.** -/
theorem staysInRange_read (payload : Bytes) (header : KeyFrameHeader)
    (h : payload.length < 2 ^ 32) : StaysInRange payload header where
  guarded := Guarded.read_eq payload header
  accounts _ := accountsFor_of_read h

/-- A payload with a first partition of four bytes, and with two token partitions. -/
def twoPartitions : Bytes :=
  List.replicate 10 0 ++ [0, 1, 0, 0] ++ [2, 0, 0] ++ [0xaa, 0xaa, 0xbb, 0xbb, 0xbb]

theorem staysInRange_read_twoPartitions :
    let header : KeyFrameHeader :=
      { profile := 0, partitionLength := 4, size := ⟨1, 1⟩, horizontalScale := 0,
        verticalScale := 0 }
    twoPartitions.length < 2 ^ 32 ∧
      (LossyDetail.read twoPartitions header).toOption.map partitionSizes = some [2, 3] ∧
      StaysInRange twoPartitions header :=
  ⟨by decide, by decide +kernel, staysInRange_read _ _ (by decide)⟩

end LossyDetail

end WebP
