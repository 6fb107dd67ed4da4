import WebP.Proofs.BitStream.Requests

/-!
# Bit streams read slices of the bits

A field takes the bits that say its value and needs all of them, whatever its kind. Since bits that
are too few end inside of the field, this settles every request: either the field fits and the next
one begins behind it, or it is refused.

## Main results

* `WebP.BitStream.takesAll_read`: what a field takes.
* `WebP.BitStream.isServed_runAll`: bit streams reply as the bits say.
* `WebP.BitStream.readsSlices_serve`: the replies of bit streams in full.
-/

namespace WebP

/-! ### Fields -/

namespace BitStream

variable {order : BitOrder} {byteLength position : Nat} {bits ahead : List Bool} {kind : BitKind}
  {answer : BitAnswer} {request : BitRequest} {requests : List BitRequest}

/-- The replies of the bit stream of a byte string. -/
def serve (order : BitOrder) (data : Bytes) (requests : List BitRequest) : BitReplies :=
  reader.runAll requests (ofBytes order data)

/-- Bits are read as the number that they form. -/
theorem takesAll_value (order : BitOrder) (h : bits.length ≤ maxFieldWidth) :
    TakesAll order (field bits.length) bits (order.value bits) := by
  have hfield : TakesAll order (field bits.length) _ _ := takesAll_field h (order.value_lt bits)
  rwa [order.digits_value] at hfield

/-- A magnitude and its sign are read as the number that they form. -/
theorem takesAll_signed (h : bits.length ≤ 31) (negative : Bool) :
    TakesAll order (signed bits.length) (bits ++ [negative])
      (BitKind.withSign negative (order.value bits)) := by
  have hpow : 2 ^ bits.length ≤ 2 ^ 31 := Nat.pow_le_pow_right (by decide) h
  have hlt := order.value_lt bits
  have hmagnitude : wrap32 (order.value bits) = order.value bits := wrap32_eq (by omega)
  have hnegative : wrap32 (-(order.value bits : Int)) = -order.value bits :=
    wrap32_eq (by omega)
  refine (takesAll_value order (Nat.le_trans h (by decide))).bind ((takesAll_flag negative).map ?_)
  rw [hmagnitude, hnegative]
  cases negative <;> exact takesAll_pure _

theorem takesAll_optional_none {α : Type} (read : Read α) :
    TakesAll order (optional read) [false] none :=
  (takesAll_flag false).map (takesAll_pure none)

theorem takesAll_optional_some {α : Type} {read : Read α} {a : α}
    (h : TakesAll order read bits a) : TakesAll order (optional read) (true :: bits) (some a) :=
  (takesAll_flag true).bind (h.map (takesAll_pure (some a)))

/-- **One field.** It takes the bits that say its value, and needs all of them. -/
theorem takesAll_read (hallowed : kind.IsAllowed) (h : kind.Denotes order bits answer) :
    TakesAll order (reader.read kind) bits answer := by
  cases h with
  | number => exact (takesAll_value order hallowed).map (takesAll_pure _)
  | bit bit => exact (takesAll_flag bit).map (takesAll_pure _)
  | signed _ negative =>
    rw [BitReader.read, signed_reader]
    exact (takesAll_signed hallowed negative).map (takesAll_pure _)
  | absent width =>
    rw [BitReader.read, optional_reader]
    exact (takesAll_optional_none _).map (takesAll_pure _)
  | present =>
    rw [BitReader.read, optional_reader]
    exact (takesAll_optional_some (takesAll_value order hallowed)).map (takesAll_pure _)
  | absentSigned width =>
    rw [BitReader.read, optional_reader]
    exact (takesAll_optional_none _).map (takesAll_pure _)
  | presentSigned _ negative =>
    rw [BitReader.read, optional_reader, signed_reader]
    exact (takesAll_optional_some (takesAll_signed hallowed negative)).map (takesAll_pure _)

/-- Asking for the position does not move it. -/
theorem run_position (stream : BitStream) :
    reader.run .position stream = .ok (.number stream.position, stream) := rfl

theorem run_bytesConsumed (stream : BitStream) :
    reader.run .bytesConsumed stream = .ok (.number stream.bytesConsumed, stream) := rfl

/-- The bytes that were touched are the fewest that hold the bits that were read. -/
theorem bytesConsumed_bounds (stream : BitStream) :
    stream.position ≤ 8 * stream.bytesConsumed ∧
      8 * stream.bytesConsumed < stream.position + 8 := by
  rw [bytesConsumed]
  omega

end BitStream

/-- Some bits begin with `width` of them, or they are fewer. -/
theorem exists_eq_append_or_isProperPrefix (width : Nat) (ahead : List Bool) :
    (∃ bits rest, ahead = bits ++ rest ∧ bits.length = width) ∨
      ∃ bits : List Bool, bits.length = width ∧ IsProperPrefix ahead bits := by
  by_cases hle : width ≤ ahead.length
  · exact .inl ⟨ahead.take width, ahead.drop width, (List.take_append_drop width ahead).symm,
      List.length_take_of_le hle⟩
  · have hlt := Nat.not_le.mp hle
    refine .inr ⟨ahead ++ List.replicate (width - ahead.length) false, ?_, ?_⟩
    · rw [List.length_append, List.length_replicate, Nat.add_sub_of_le (Nat.le_of_lt hlt)]
    · refine IsProperPrefix.append_right List.prefix_rfl fun hnil => ?_
      have hzero := (List.replicate_eq_nil_iff false).mp hnil
      omega

/-- Bits, of which there are at least one, end with a bit. -/
theorem exists_eq_append_singleton {bits : List Bool} {width : Nat}
    (h : bits.length = width + 1) : ∃ front bit, bits = front ++ [bit] ∧ front.length = width := by
  have hne : bits ≠ [] := List.ne_nil_of_length_eq_add_one h
  refine ⟨bits.dropLast, bits.getLast hne, (List.dropLast_concat_getLast hne).symm, ?_⟩
  rw [List.length_dropLast, h, Nat.add_sub_cancel]

/-- Some bits begin with `width` of them and another one, or they are fewer. -/
theorem exists_eq_append_bit_or_isProperPrefix (width : Nat) (ahead : List Bool) :
    (∃ front bit rest, ahead = (front ++ [bit]) ++ rest ∧ front.length = width) ∨
      ∃ front bit, front.length = width ∧ IsProperPrefix ahead (front ++ [bit]) := by
  rcases exists_eq_append_or_isProperPrefix (width + 1) ahead with
    ⟨bits, rest, rfl, hlength⟩ | ⟨bits, hlength, hprefix⟩
  all_goals obtain ⟨front, bit, rfl, hfront⟩ := exists_eq_append_singleton hlength
  · exact .inl ⟨front, bit, rest, rfl, hfront⟩
  · exact .inr ⟨front, bit, hfront, hprefix⟩

theorem BitKind.denotes_number (order : BitOrder) {bits : List Bool} {width : Nat}
    (h : bits.length = width) :
    (BitKind.number width).Denotes order bits (.number (order.value bits)) :=
  h ▸ .number bits

/-- A field fits into the bits that are ahead, or these end inside of it. -/
theorem BitKind.exists_denotes_or_endsInside (order : BitOrder) (kind : BitKind)
    (ahead : List Bool) :
    (∃ bits rest answer, ahead = bits ++ rest ∧ kind.Denotes order bits answer) ∨
      kind.EndsInside order ahead := by
  cases kind with
  | number width =>
    rcases exists_eq_append_or_isProperPrefix width ahead with
      ⟨bits, rest, rfl, rfl⟩ | ⟨bits, rfl, hprefix⟩
    · exact .inl ⟨bits, rest, _, rfl, .number bits⟩
    · exact .inr ⟨bits, _, .number bits, hprefix⟩
  | bit =>
    cases ahead with
    | nil => exact .inr ⟨[false], _, .bit false, List.nil_prefix, (List.cons_ne_nil _ _).symm⟩
    | cons bit rest => exact .inl ⟨[bit], rest, _, rfl, .bit bit⟩
  | signed width =>
    rcases exists_eq_append_bit_or_isProperPrefix width ahead with
      ⟨front, negative, rest, rfl, rfl⟩ | ⟨front, negative, rfl, hprefix⟩
    · exact .inl ⟨_, rest, _, rfl, .signed front negative⟩
    · exact .inr ⟨_, _, .signed front negative, hprefix⟩
  | optional width =>
    match ahead with
    | [] => exact .inr ⟨[false], _, .absent width, List.nil_prefix, (List.cons_ne_nil _ _).symm⟩
    | false :: rest => exact .inl ⟨[false], rest, _, rfl, .absent width⟩
    | true :: ahead =>
      rcases exists_eq_append_or_isProperPrefix width ahead with
        ⟨bits, rest, rfl, rfl⟩ | ⟨bits, rfl, hprefix⟩
      · exact .inl ⟨_, rest, _, rfl, .present bits⟩
      · exact .inr ⟨_, _, .present bits, hprefix.append_left [true]⟩
  | optionalSigned width =>
    match ahead with
    | [] =>
      exact .inr ⟨[false], _, .absentSigned width, List.nil_prefix, (List.cons_ne_nil _ _).symm⟩
    | false :: rest => exact .inl ⟨[false], rest, _, rfl, .absentSigned width⟩
    | true :: ahead =>
      rcases exists_eq_append_bit_or_isProperPrefix width ahead with
        ⟨front, negative, rest, rfl, rfl⟩ | ⟨front, negative, rfl, hprefix⟩
      · exact .inl ⟨_, rest, _, rfl, .presentSigned front negative⟩
      · exact .inr ⟨_, _, .presentSigned front negative, hprefix.append_left [true]⟩

namespace BitStream

variable {order : BitOrder} {byteLength position : Nat} {bits ahead : List Bool} {kind : BitKind}
  {answer : BitAnswer} {front back requests : List BitRequest}

/-- A field that fits is answered, and the other requests go on behind it. -/
theorem runAll_cons_of_denotes (hallowed : kind.IsAllowed) (h : kind.Denotes order bits answer) :
    reader.runAll (.read kind :: requests) ⟨order, byteLength, position, bits ++ ahead⟩ =
      (reader.runAll requests ⟨order, byteLength, position + bits.length, ahead⟩).behind
        [answer] :=
  BitReader.runAll_cons_of_ok ((takesAll_read hallowed h).takes byteLength position ahead)

/-- A field that does not fit is refused. -/
theorem exists_runAll_cons_of_endsInside (hallowed : kind.IsAllowed)
    (h : kind.EndsInside order ahead) : ∃ fault : Fault, fault.cause = .truncatedChunk ∧
      ∀ requests, reader.runAll (.read kind :: requests) ⟨order, byteLength, position, ahead⟩ =
        ⟨[], some fault⟩ := by
  obtain ⟨bits, answer, hdenotes, hprefix⟩ := h
  obtain ⟨fault, hrun, hcause⟩ :=
    (takesAll_read hallowed hdenotes).cutOff byteLength position hprefix
  exact ⟨fault, hcause, fun requests => BitReader.runAll_cons_of_error hrun⟩

/-- **Requests to a bit stream.** They are answered as the bits say. The induction is on the
requests, at every position. -/
theorem isServed_runAll (hallowed : ∀ request ∈ requests, request.IsAllowed) :
    IsServed order position ahead requests
      (reader.runAll requests ⟨order, byteLength, position, ahead⟩) := by
  induction requests generalizing position ahead with
  | nil => exact .done position ahead
  | cons request requests ih =>
    obtain ⟨hrequest, hrequests⟩ := List.forall_mem_cons.mp hallowed
    cases request with
    | read kind =>
      rcases kind.exists_denotes_or_endsInside order ahead with
        ⟨bits, rest, answer, rfl, hdenotes⟩ | hends
      · rw [runAll_cons_of_denotes hrequest hdenotes]
        exact .read hdenotes (ih hrequests)
      · obtain ⟨fault, hcause, hrun⟩ := exists_runAll_cons_of_endsInside hrequest hends
        rw [hrun]
        exact .cutOff hends hcause
    | position =>
      rw [BitReader.runAll_cons_of_ok (run_position _)]
      exact .position (ih hrequests)
    | bytesConsumed =>
      obtain ⟨henough, hleast⟩ := bytesConsumed_bounds ⟨order, byteLength, position, ahead⟩
      rw [BitReader.runAll_cons_of_ok (run_bytesConsumed _)]
      exact .bytesConsumed henough hleast (ih hrequests)

/-! ### Joined numbers -/

/-- A request is answered and leaves a bit stream of the same bytes, or it fails. -/
theorem run_eq_ok_or_error {request : BitRequest} (hallowed : request.IsAllowed)
    (order : BitOrder) (byteLength position : Nat) (ahead : List Bool) :
    (∃ answer position' ahead', reader.run request ⟨order, byteLength, position, ahead⟩ =
      .ok (answer, ⟨order, byteLength, position', ahead'⟩)) ∨
    ∃ fault, reader.run request ⟨order, byteLength, position, ahead⟩ = .error fault := by
  cases request with
  | read kind =>
    rcases kind.exists_denotes_or_endsInside order ahead with
      ⟨bits, rest, answer, rfl, hdenotes⟩ | ⟨bits, answer, hdenotes, hprefix⟩
    · exact .inl ⟨_, _, _, (takesAll_read hallowed hdenotes).takes byteLength position rest⟩
    · obtain ⟨fault, hrun, -⟩ :=
        (takesAll_read hallowed hdenotes).cutOff byteLength position hprefix
      exact .inr ⟨fault, hrun⟩
  | position => exact .inl ⟨_, _, _, run_position _⟩
  | bytesConsumed => exact .inl ⟨_, _, _, run_bytesConsumed _⟩

/-- Two numbers in front of other requests, and the number that they form. -/
theorem runAll_number_add {a b n : Nat} {after : List BitAnswer} {fault : Option Fault}
    (hwidth : a + b ≤ 32) :
    reader.runAll (.read (.number (a + b)) :: back) ⟨order, byteLength, position, ahead⟩ =
        ⟨.number n :: after, fault⟩ ↔
      ∃ x y, n = order.join a b x y ∧
        reader.runAll (.read (.number a) :: .read (.number b) :: back)
            ⟨order, byteLength, position, ahead⟩ =
          ⟨.number x :: .number y :: after, fault⟩ := by
  have ha : (BitKind.number a).IsAllowed := Nat.le_trans (Nat.le_add_right a b) hwidth
  have hb : (BitKind.number b).IsAllowed := Nat.le_trans (Nat.le_add_left b a) hwidth
  have hab : (BitKind.number (a + b)).IsAllowed := hwidth
  have hjoined {first second : List Bool} (h₁ : first.length = a) (h₂ : second.length = b) :=
    BitKind.denotes_number order (by rw [List.length_append, h₁, h₂] :
      (first ++ second).length = a + b)
  rcases exists_eq_append_or_isProperPrefix a ahead with
    ⟨first, rest, rfl, hfirst⟩ | ⟨first, hfirst, hprefix⟩
  · rw [runAll_cons_of_denotes ha (BitKind.denotes_number order hfirst)]
    rcases exists_eq_append_or_isProperPrefix b rest with
      ⟨second, rest, rfl, hsecond⟩ | ⟨second, hsecond, hprefix⟩
    · -- both numbers fit, and so does the one that they form
      rw [runAll_cons_of_denotes hb (BitKind.denotes_number order hsecond), ← List.append_assoc,
        runAll_cons_of_denotes hab (hjoined hfirst hsecond), List.length_append, Nat.add_assoc,
        order.value_append, hfirst, hsecond]
      simp only [BitReplies.behind_singleton_eq_iff, BitAnswer.number.injEq]
      constructor
      · rintro ⟨rfl, hothers⟩
        exact ⟨_, _, rfl, rfl, rfl, hothers⟩
      · rintro ⟨x, y, rfl, rfl, rfl, hothers⟩
        exact ⟨rfl, hothers⟩
    · -- the bits end inside the second number
      obtain ⟨fault₁, -, hwhole⟩ := exists_runAll_cons_of_endsInside hab
        ⟨_, _, hjoined hfirst hsecond, hprefix.append_left first⟩
      obtain ⟨fault₂, -, hparts⟩ := exists_runAll_cons_of_endsInside hb
        ⟨_, _, BitKind.denotes_number order hsecond, hprefix⟩
      rw [hwhole, hparts]
      simp
  · -- the bits end inside the first number
    have hprefix' : IsProperPrefix ahead (first ++ List.replicate b false) :=
      hprefix.trans_prefix (List.prefix_append _ _)
    obtain ⟨fault₁, -, hwhole⟩ := exists_runAll_cons_of_endsInside hab
      ⟨_, _, hjoined hfirst List.length_replicate, hprefix'⟩
    obtain ⟨fault₂, -, hparts⟩ := exists_runAll_cons_of_endsInside ha
      ⟨_, _, BitKind.denotes_number order hfirst, hprefix⟩
    rw [hwhole, hparts]
    simp

/-- The same behind other requests. The induction is on these. -/
theorem runAll_append_number_add {a b n : Nat} {before after : List BitAnswer}
    {fault : Option Fault} (hwidth : a + b ≤ 32)
    (hallowed : ∀ request ∈ front, request.IsAllowed) (hlength : before.length = front.length) :
    reader.runAll (front ++ .read (.number (a + b)) :: back)
          ⟨order, byteLength, position, ahead⟩ = ⟨before ++ .number n :: after, fault⟩ ↔
      ∃ x y, n = order.join a b x y ∧
        reader.runAll (front ++ .read (.number a) :: .read (.number b) :: back)
            ⟨order, byteLength, position, ahead⟩ =
          ⟨before ++ .number x :: .number y :: after, fault⟩ := by
  induction front generalizing before position ahead with
  | nil =>
    obtain rfl := List.eq_nil_of_length_eq_zero hlength
    exact runAll_number_add hwidth
  | cons request front ih =>
    obtain ⟨hrequest, hfront⟩ := List.forall_mem_cons.mp hallowed
    obtain ⟨answer, before, rfl⟩ := List.exists_cons_of_length_eq_add_one hlength
    rcases run_eq_ok_or_error hrequest order byteLength position ahead with
      ⟨answer', position', ahead', hrun⟩ | ⟨fault', hrun⟩
    · simp only [List.cons_append, BitReader.runAll_cons_of_ok hrun,
        BitReplies.behind_singleton_eq_iff, ih hfront (Nat.succ.inj hlength)]
      constructor
      · rintro ⟨rfl, x, y, hjoin, hothers⟩
        exact ⟨x, y, hjoin, rfl, hothers⟩
      · rintro ⟨x, y, hjoin, rfl, hothers⟩
        exact ⟨rfl, x, y, hjoin, hothers⟩
    · simp only [List.cons_append, BitReader.runAll_cons_of_error hrun]
      simp

/-! ### Written fields -/

/-- Fields are read from their bits, whatever stands behind these. -/
theorem runAll_map_read {fields : List BitField} (h : ∀ field ∈ fields, field.Fits) :
    reader.runAll (fields.map fun field => .read field.kind)
        ⟨order, byteLength, position, fields.flatMap (BitField.bits order) ++ ahead⟩ =
      ⟨fields.map BitField.answer, none⟩ := by
  induction fields generalizing position with
  | nil => rfl
  | cons field fields ih =>
    obtain ⟨hfield, hfields⟩ := List.forall_mem_cons.mp h
    rw [List.map_cons, List.flatMap_cons, List.append_assoc,
      runAll_cons_of_denotes hfield.1 (field.denotes_bits order hfield), ih hfields]
    rfl

/-- **Bit streams read slices of the bits.** -/
theorem readsSlices_serve : ReadsSlices serve where
  isServed order data {requests} hallowed := isServed_runAll hallowed
  joins order data {front back a b} hfront hback hwidth {before after n fault} hlength :=
    runAll_append_number_add hwidth hfront hlength
  reads_written order {fields} hfit trailing := by
    have hwidths : BitOrder.FitWidths (fields.flatMap BitField.numbers) := fun number hnumber => by
      obtain ⟨field, hfield, hmem⟩ := List.mem_flatMap.mp hnumber
      exact (hfit field hfield).2 number hmem
    obtain ⟨free, hbits⟩ := order.flatMap_bits_write hwidths
    rw [List.flatMap_assoc] at hbits
    rw [serve, ofBytes, List.flatMap_append, hbits, List.append_assoc]
    exact runAll_map_read hfit

end BitStream

end WebP
