import WebP.Proofs.BitStream.TakesAll
import WebP.Proofs.Image.EndsInside

/-!
# The code of a chain of transforms

A chain that can be read has at most two transforms: the one that has no image of its own may come
first, and one that has an image ends the chain. Each transform is written as a set bit, its kind
and its size, and a chain that does not end by itself is ended by a bit that is not set. No code of
a chain is the beginning of another one, and all bits begin with one, end inside one, or repeat the
transform that has no image.

## Main definitions

* `WebP.Chain.IsValid`, `WebP.Chain.encode`: the chains that can be written, and their bits.
* `WebP.Chain.read`: a chain as a read of a bit stream.

## Main results

* `WebP.Chain.IsValid.takesAll_read`: a chain is read from all of its bits.
* `WebP.Chain.IsValid.eq_of_encode_le`: the codes of chains are free of beginnings.
* `WebP.Chain.begins_or_repeats_or_isCutShort`: what bits may begin with.
-/

namespace WebP

open BitStream (Read TakesAll takesAll_field takesAll_flag takesAll_pure run_bind_of_error)

/-! ### One transform -/

namespace TransformKind

/-- The two-bit code of a kind. -/
def code : TransformKind → Nat
  | .predictor => 0
  | .crossColor => 1
  | .subtractGreen => 2
  | .colorIndexing => 3

theorem code_lt (kind : TransformKind) : kind.code < 2 ^ 2 := by cases kind <;> decide

theorem mem_all (kind : TransformKind) : kind ∈ all := by cases kind <;> decide

@[simp] theorem ofCode_code (kind : TransformKind) : ofCode kind.code = kind := by
  cases kind <;> rfl

end TransformKind

namespace Chain

/-- The order of the bits of a lossless bitstream. -/
abbrev order : BitOrder := .leastSignificantFirst

end Chain

open Chain (order)

namespace Transform

/-- The number that stands for the size of a transform: a block size of `2 ^ (2 + k)` is stored as
`k` and the size of a palette less one. -/
def sizeField : Transform → Nat
  | .predictor blockSize | .crossColor blockSize => blockSize.log2 - 2
  | .subtractGreen => 0
  | .colorIndexing paletteSize => paletteSize - 1

/-- A transform, written. -/
def bits (transform : Transform) : List Bool :=
  ([true] ++ order.digits 2 transform.kind.code) ++
    order.digits transform.kind.sizeWidth transform.sizeField

/-- A transform with an image of its own, with a size that can be written. -/
inductive IsLast : Transform → Prop
  | predictor {k : Nat} (h : k < 8) : IsLast (.predictor (2 ^ (2 + k)))
  | crossColor {k : Nat} (h : k < 8) : IsLast (.crossColor (2 ^ (2 + k)))
  | colorIndexing {paletteSize : Nat} (pos : 1 ≤ paletteSize) (le : paletteSize ≤ 256) :
      IsLast (.colorIndexing paletteSize)

variable {transform : Transform}

theorem IsLast.hasImage (h : transform.IsLast) : transform.hasImage = true := by
  cases h <;> rfl

theorem IsLast.kind_ne (h : transform.IsLast) : transform.kind ≠ .subtractGreen := by
  cases h <;> nofun

theorem takesAll_nextKind_some (kind : TransformKind) :
    TakesAll order Chain.nextKind ([true] ++ order.digits 2 kind.code) (some kind) := by
  refine (takesAll_flag true).bind ((takesAll_field (by decide) kind.code_lt).map ?_)
  rw [TransformKind.ofCode_code]
  exact takesAll_pure _

theorem takesAll_readBlockSize {k : Nat} (h : k < 8) :
    TakesAll order readBlockSize (order.digits 3 ((2 ^ (2 + k)).log2 - 2)) (2 ^ (2 + k)) := by
  rw [Nat.log2_two_pow, Nat.add_sub_cancel_left]
  refine (takesAll_field (by decide) h).map ?_
  rw [Nat.one_shiftLeft]
  exact takesAll_pure _

/-- The size of a transform is read back. -/
theorem IsLast.takesAll_readSize (h : transform.IsLast) :
    TakesAll order (readSize transform.kind)
      (order.digits transform.kind.sizeWidth transform.sizeField) transform := by
  cases h with
  | predictor h => exact (takesAll_readBlockSize h).map (takesAll_pure _)
  | crossColor h => exact (takesAll_readBlockSize h).map (takesAll_pure _)
  | @colorIndexing paletteSize pos le =>
    have hread : TakesAll order (BitStream.field 8) (order.digits 8 (paletteSize - 1)) _ :=
      takesAll_field (by decide) (by omega)
    refine hread.map ?_
    rw [Nat.sub_add_cancel pos]
    exact takesAll_pure _

/-- Any bits behind the code of a kind with an image are the size of a transform. -/
theorem exists_bits_eq {low high : Bool} (hkind : TransformKind.ofBits low high ≠ .subtractGreen)
    {size : List Bool} (hsize : size.length = (TransformKind.ofBits low high).sizeWidth) :
    ∃ transform : Transform, transform.IsLast ∧ transform.bits = true :: low :: high :: size := by
  have hcode : [low, high] = order.digits 2 (TransformKind.ofBits low high).code := by
    cases low <;> cases high <;> rfl
  obtain ⟨n, hlt, rfl⟩ := order.exists_digits_eq hsize
  change ∃ transform : Transform, transform.IsLast ∧
    transform.bits = ([true] ++ [low, high]) ++ order.digits _ n
  rw [hcode]
  generalize TransformKind.ofBits low high = kind at *
  cases kind with
  | subtractGreen => exact absurd rfl hkind
  | predictor =>
    refine ⟨.predictor (2 ^ (2 + n)), .predictor hlt, ?_⟩
    rw [bits, sizeField, Nat.log2_two_pow, Nat.add_sub_cancel_left]
    rfl
  | crossColor =>
    refine ⟨.crossColor (2 ^ (2 + n)), .crossColor hlt, ?_⟩
    rw [bits, sizeField, Nat.log2_two_pow, Nat.add_sub_cancel_left]
    rfl
  | colorIndexing =>
    refine ⟨.colorIndexing (n + 1), .colorIndexing (Nat.le_add_left 1 n) hlt, ?_⟩
    rw [bits, sizeField, Nat.add_sub_cancel]
    rfl

/-- Bits that end inside the code of a kind end inside a transform with an image. -/
theorem exists_isLast_endsInside {bits : List Bool} {low : Bool} (h : bits <+: [true, low]) :
    ∃ transform : Transform, transform.IsLast ∧ IsProperPrefix bits transform.bits := by
  have hkind : TransformKind.ofBits low false ≠ .subtractGreen := by cases low <;> decide
  obtain ⟨transform, hlast, hbits⟩ := exists_bits_eq hkind (@List.length_replicate Bool _ false)
  refine ⟨transform, hlast, ?_⟩
  rw [hbits]
  exact .append_right h (List.cons_ne_nil false _)

/-- Bits that begin with the code of a kind with an image begin with a transform of this kind, or
end inside one. -/
theorem exists_isLast_of_kind {low high : Bool}
    (hkind : TransformKind.ofBits low high ≠ .subtractGreen) (rest : List Bool) :
    ∃ transform : Transform, transform.IsLast ∧
      (transform.bits <+: true :: low :: high :: rest ∨
        IsProperPrefix (true :: low :: high :: rest) transform.bits) := by
  generalize hwidth : (TransformKind.ofBits low high).sizeWidth = width
  rcases Nat.lt_or_ge rest.length width with hlt | hge
  · -- any transform whose size begins with what is there
    let missing := List.replicate (width - rest.length) false
    have hmissing : missing ≠ [] := by
      rw [← List.length_pos_iff, List.length_replicate]
      omega
    have hsize : (rest ++ missing).length = width := by
      rw [List.length_append, List.length_replicate]
      omega
    obtain ⟨transform, hlast, hbits⟩ := exists_bits_eq hkind (hsize.trans hwidth.symm)
    refine ⟨transform, hlast, .inr ?_⟩
    rw [hbits]
    exact .append_right (List.prefix_refl (true :: low :: high :: rest)) hmissing
  · have hsize : (rest.take width).length = width := List.length_take_of_le hge
    obtain ⟨transform, hlast, hbits⟩ := exists_bits_eq hkind (hsize.trans hwidth.symm)
    refine ⟨transform, hlast, .inl ?_⟩
    rw [hbits]
    exact (List.prefix_append_right_inj [true, low, high]).mpr (List.take_prefix width rest)

end Transform

namespace Chain

variable {unseen : List TransformKind} {transform : Transform} {transforms : List Transform}
  {rest : List Bool}

/-! ### Reading a chain -/

/-- The chain of the kinds in `unseen`, read from a bit stream. -/
def read (unseen : List TransformKind) : Read (List Transform) := fun stream =>
  (ofKinds unseen stream).outcome.result

/-- What follows the kind of a transform. -/
def readBehindKind (unseen : List TransformKind) (kind : TransformKind) :
    Read (List Transform) := do
  if kind ∈ unseen then
    let transform ← BitStream.noting (.readingTransform kind) (Transform.readSize kind)
    if transform.hasImage then
      return [transform]
    else
      return transform :: (← read (unseen.erase kind))
  else
    throw ⟨.invalidBitstream, [.repeatedTransform kind]⟩

/-- A chain is read transform by transform. -/
theorem read_eq (unseen : List TransformKind) :
    read unseen = nextKind >>= fun next =>
      match next with
      | none => pure []
      | some kind => readBehindKind unseen kind := by
  funext stream
  rw [read, ofKinds]
  simp only [bind, StateT.bind]
  cases nextKind stream with
  | error fault => rfl
  | ok found =>
    obtain ⟨_ | kind, stream⟩ := found
    · rfl
    · simp only [Except.bind, readBehindKind]
      by_cases hmem : kind ∈ unseen
      · rw [dif_pos hmem, if_pos hmem]
        simp only [bind, StateT.bind]
        cases BitStream.noting (.readingTransform kind) (Transform.readSize kind) stream with
        | error fault => rfl
        | ok found =>
          obtain ⟨transform, stream⟩ := found
          simp only [Except.bind]
          by_cases himage : transform.hasImage = true
          · rw [if_pos himage, if_pos himage]
            rfl
          · rw [if_neg himage, if_neg himage]
            simp only [StateT.bind, read]
            rw [outcome, outcome]
            cases (ofKinds (unseen.erase kind) stream).ending <;> rfl
      · rw [dif_neg hmem, if_neg hmem]
        rfl

theorem takesAll_read_nil : TakesAll order (read unseen) [false] [] := by
  rw [read_eq]
  exact ((takesAll_flag false).map (takesAll_pure none)).map (takesAll_pure [])

/-- A transform with an image ends the chain. -/
theorem takesAll_read_last (h : transform.IsLast) (hmem : transform.kind ∈ unseen) :
    TakesAll order (read unseen) transform.bits [transform] := by
  rw [read_eq]
  refine (Transform.takesAll_nextKind_some transform.kind).bind ?_
  dsimp only
  rw [readBehindKind, if_pos hmem]
  refine (h.takesAll_readSize.noting _).map ?_
  rw [if_pos h.hasImage]
  exact takesAll_pure _

/-- Behind the transform that has no image the chain goes on without its kind. -/
theorem takesAll_read_subtractGreen (hmem : .subtractGreen ∈ unseen)
    (h : TakesAll order (read (unseen.erase .subtractGreen)) rest transforms) :
    TakesAll order (read unseen) (Transform.subtractGreen.bits ++ rest)
      (.subtractGreen :: transforms) := by
  have hkind := Transform.takesAll_nextKind_some .subtractGreen
  rw [read_eq, Transform.bits, List.append_assoc]
  refine hkind.bind ?_
  dsimp only
  rw [readBehindKind, if_pos hmem]
  exact ((takesAll_pure Transform.subtractGreen).noting _).bind (h.map (takesAll_pure _))

/-- A kind that has been seen is refused. -/
theorem read_of_not_mem {kind : TransformKind} (hmem : kind ∉ unseen)
    (byteLength position : Nat) (rest : List Bool) :
    read unseen (bitsAt byteLength position (([true] ++ order.digits 2 kind.code) ++ rest)) =
      .error ⟨.invalidBitstream, [.repeatedTransform kind]⟩ := by
  rw [read_eq]
  refine ((Transform.takesAll_nextKind_some kind).takes.run_bind byteLength position rest).trans ?_
  dsimp only
  rw [readBehindKind, if_neg hmem]
  rfl

/-- Bits that repeat the transform that has no image are refused. -/
theorem read_repeats (byteLength position : Nat) (rest : List Bool) :
    read TransformKind.all (bitsAt byteLength position
        (Transform.subtractGreen.bits ++ (Transform.subtractGreen.bits ++ rest))) =
      .error ⟨.invalidBitstream, [.repeatedTransform .subtractGreen]⟩ := by
  have hkind := (Transform.takesAll_nextKind_some .subtractGreen).takes
  have hagain : TransformKind.subtractGreen ∉ TransformKind.all.erase .subtractGreen := by decide
  rw [read_eq]
  refine (hkind.run_bind byteLength position _).trans ?_
  dsimp only
  rw [readBehindKind, if_pos (TransformKind.mem_all .subtractGreen)]
  refine (((takesAll_pure Transform.subtractGreen).noting _).takes.run_bind byteLength
    (position + 3) (Transform.subtractGreen.bits ++ rest)).trans ?_
  rw [if_neg (show ¬ Transform.subtractGreen.hasImage = true from Bool.false_ne_true)]
  exact run_bind_of_error (read_of_not_mem hagain byteLength (position + 3) rest)

/-! ### Chains that can be written -/

/-- The chains that can be written: at most one transform that has an image, at the end, and at most
one that has none. -/
inductive IsValid : List Transform → Prop
  | empty : IsValid []
  | subtractGreen : IsValid [.subtractGreen]
  | last {final : Transform} (h : final.IsLast) : IsValid [final]
  | subtractGreenThenLast {final : Transform} (h : final.IsLast) :
      IsValid [.subtractGreen, final]

/-- A chain, written. A bit that is not set follows a chain that is empty or ends with the transform
that has no image. -/
def encode (transforms : List Transform) : List Bool :=
  transforms.flatMap Transform.bits ++
    if transforms.getLast?.all (· = .subtractGreen) then [false] else []

theorem encode_last (h : transform.IsLast) : encode [transform] = transform.bits := by
  have hne : transform ≠ .subtractGreen := by
    rintro rfl
    cases h
  simp [encode, hne]

theorem encode_subtractGreen_last (h : transform.IsLast) :
    encode [.subtractGreen, transform] = Transform.subtractGreen.bits ++ transform.bits := by
  rw [← encode_last h]
  simp [encode]

/-- **A chain is read from its bits.** All of them are needed, and no other ones. -/
theorem IsValid.takesAll_read (h : IsValid transforms) :
    TakesAll order (read TransformKind.all) (encode transforms) transforms := by
  have hgreen := TransformKind.mem_all .subtractGreen
  cases h with
  | empty => exact takesAll_read_nil
  | subtractGreen => exact takesAll_read_subtractGreen hgreen takesAll_read_nil
  | last h =>
    rw [encode_last h]
    exact takesAll_read_last h (TransformKind.mem_all _)
  | subtractGreenThenLast h =>
    have hmem := (List.mem_erase_of_ne h.kind_ne).mpr (TransformKind.mem_all _)
    rw [encode_subtractGreen_last h]
    exact takesAll_read_subtractGreen hgreen (takesAll_read_last h hmem)

/-- No chain is written as the beginning of another one. -/
theorem IsValid.eq_of_encode_le {others : List Transform} (h : IsValid transforms)
    (hother : IsValid others) (hbegins : encode transforms <+: encode others) :
    transforms = others := by
  obtain ⟨tail, htail⟩ := hbegins
  have hread := h.takesAll_read.takes 0 0 tail
  have hread' := hother.takesAll_read.takes 0 0 []
  rw [List.append_nil, ← htail] at hread'
  exact (Prod.mk.inj (Except.ok.inj (hread.symm.trans hread'))).1

/-! ### What bits may begin with -/

/-- Bits that do not end a chain and do not begin with the transform that has no image begin with
one that has an image, or end inside one. -/
theorem begins_or_endsInside_last (bits : List Bool) :
    [false] <+: bits ∨ Transform.subtractGreen.bits <+: bits ∨
      ∃ transform : Transform, transform.IsLast ∧
        (transform.bits <+: bits ∨ IsProperPrefix bits transform.bits) := by
  have hinside (low : Bool) (h : bits <+: [true, low]) :
      ∃ transform : Transform, transform.IsLast ∧
        (transform.bits <+: bits ∨ IsProperPrefix bits transform.bits) := by
    obtain ⟨transform, hlast, hends⟩ := Transform.exists_isLast_endsInside h
    exact ⟨transform, hlast, .inr hends⟩
  match bits with
  | [] => exact .inr (.inr (hinside false List.nil_prefix))
  | false :: rest => exact .inl (List.prefix_append [false] rest)
  | [true] => exact .inr (.inr (hinside false (List.prefix_append [true] [false])))
  | [true, low] => exact .inr (.inr (hinside low (List.prefix_refl [true, low])))
  | true :: low :: high :: rest =>
    by_cases hkind : TransformKind.ofBits low high = .subtractGreen
    · have hgreen : Transform.subtractGreen.bits = [true, low, high] := by
        cases low <;> cases high <;> first | rfl | cases hkind
      rw [hgreen]
      exact .inr (.inl (List.prefix_append [true, low, high] rest))
    · exact .inr (.inr (Transform.exists_isLast_of_kind hkind rest))

/-- The bits begin with the transform that has no image, and with the same one again. -/
def Repeats (bits : List Bool) : Prop :=
  Transform.subtractGreen.bits ++ Transform.subtractGreen.bits <+: bits

/-- The bits end before a chain that they begin does. -/
def IsCutShort (bits : List Bool) : Prop :=
  ∃ transforms, IsValid transforms ∧ IsProperPrefix bits (encode transforms)

/-- **What bits may begin with.** All bits begin with a chain, repeat the transform that has no
image, or end before a chain does. -/
theorem begins_or_repeats_or_isCutShort (bits : List Bool) :
    (∃ transforms, IsValid transforms ∧ encode transforms <+: bits) ∨ Repeats bits ∨
      IsCutShort bits := by
  rcases begins_or_endsInside_last bits with hfalse | ⟨rest, rfl⟩ | ⟨transform, hlast, hbits⟩
  · exact .inl ⟨[], .empty, hfalse⟩
  · rcases begins_or_endsInside_last rest with hfalse | hgreen | ⟨transform, hlast, hrest⟩
    · exact .inl ⟨[.subtractGreen], .subtractGreen, (List.prefix_append_right_inj _).mpr hfalse⟩
    · exact .inr (.inl ((List.prefix_append_right_inj _).mpr hgreen))
    · have hencode := encode_subtractGreen_last hlast
      rcases hrest with hbegins | hends
      · refine .inl ⟨_, .subtractGreenThenLast hlast, ?_⟩
        rw [hencode]
        exact (List.prefix_append_right_inj _).mpr hbegins
      · refine .inr (.inr ⟨_, .subtractGreenThenLast hlast, ?_⟩)
        rw [hencode]
        exact hends.append_left _
  · rcases hbits with hbegins | hends
    · refine .inl ⟨_, .last hlast, ?_⟩
      rwa [encode_last hlast]
    · refine .inr (.inr ⟨_, .last hlast, ?_⟩)
      rwa [encode_last hlast]

/-! ### What a chain is read as -/

variable {byteLength position : Nat} {bits : List Bool} {after : BitStream}

/-- The chain at the head of the bits is read. -/
theorem read_eq_ok_iff :
    read TransformKind.all (bitsAt byteLength position bits) = .ok (transforms, after) ↔
      IsValid transforms ∧ ∃ tail, bits = encode transforms ++ tail ∧
        after = bitsAt byteLength (position + (encode transforms).length) tail := by
  constructor
  · intro h
    rcases begins_or_repeats_or_isCutShort bits with
      ⟨found, hvalid, tail, rfl⟩ | ⟨rest, rfl⟩ | ⟨whole, hvalid, hends⟩
    · have hfound := hvalid.takesAll_read.takes byteLength position tail
      obtain ⟨rfl, rfl⟩ := Prod.mk.inj (Except.ok.inj (hfound.symm.trans h))
      exact ⟨hvalid, tail, rfl, rfl⟩
    · rw [List.append_assoc, read_repeats] at h
      cases h
    · have hout := hvalid.takesAll_read.cutOff byteLength position hends
      exact absurd (h ▸ hout) failsWith_ok_iff.mp
  · rintro ⟨hvalid, tail, rfl, rfl⟩
    exact hvalid.takesAll_read.takes byteLength position tail

/-- A chain that is refused repeats the transform that has no image, or is cut short. -/
theorem failsWith_read_iff {Q : Cause → Prop} :
    FailsWith (fun fault => Q fault.cause)
        (read TransformKind.all (bitsAt byteLength position bits)) ↔
      Q .invalidBitstream ∧ Repeats bits ∨ Q .truncatedChunk ∧ IsCutShort bits := by
  constructor
  · intro h
    rcases begins_or_repeats_or_isCutShort bits with
      ⟨transforms, hvalid, tail, rfl⟩ | ⟨rest, rfl⟩ | ⟨whole, hvalid, hends⟩
    · rw [hvalid.takesAll_read.takes] at h
      exact absurd h failsWith_ok_iff.mp
    · rw [List.append_assoc, read_repeats] at h
      exact .inl ⟨failsWith_error_iff.mp h, List.prefix_append _ rest⟩
    · obtain ⟨fault, hfault, hcause⟩ := hvalid.takesAll_read.cutOff byteLength position hends
      rw [hfault, failsWith_error_iff, hcause] at h
      exact .inr ⟨h, whole, hvalid, hends⟩
  · rintro (⟨hq, rest, rfl⟩ | ⟨hq, whole, hvalid, hends⟩)
    · rw [List.append_assoc, read_repeats]
      exact failsWith_error_iff.mpr hq
    · refine (hvalid.takesAll_read.cutOff byteLength position hends).imp fun fault hcause => ?_
      rwa [hcause]

end Chain

end WebP
