import WebP.Proofs.BitStream.Value

/-!
# What a read takes from a bit stream

A field is read back from its digits, whatever stands behind them, and such facts compose as the
reads do. A number with a sign is written as its magnitude with the sign behind it, so that zero
can be written in two ways. A number that may be left out has a bit in front that tells.

## Main definitions

* `WebP.BitStream.Takes`: a read takes given bits and yields a given value.
* `WebP.BitOrder.signedBits`, `WebP.BitOrder.optionalsBits`: how numbers with a sign are written.

## Main results

* `WebP.BitStream.Takes.bind`: what two reads in sequence take.
* `WebP.BitStream.takes_field`, `WebP.BitStream.takes_signed`, `WebP.BitStream.takes_optionals`:
  fields and lists of fields are read as they were written.
-/

namespace WebP

namespace BitOrder

/-- A number with a sign. The sign of zero is `negatesZero`. -/
def signedBits (order : BitOrder) (width : Nat) (negatesZero : Bool) (value : Int) : List Bool :=
  order.digits width value.natAbs ++ [if value = 0 then negatesZero else decide (value < 0)]

/-- A number with a sign that may be left out. -/
def optionalBits (order : BitOrder) (width : Nat) (negatesZero : Bool) : Option Int → List Bool
  | none => [false]
  | some value => true :: order.signedBits width negatesZero value

/-- Numbers that may be left out, one after another, with the signs of those that are zero. -/
def optionalsBits (order : BitOrder) (width : Nat) :
    (negatesZero : Nat → Bool) → List (Option Int) → List Bool
  | _, [] => []
  | negatesZero, value :: values =>
    order.optionalBits width (negatesZero 0) value ++
      optionalsBits order width (fun i => negatesZero (i + 1)) values

end BitOrder

namespace BitStream

variable {α β : Type} {order : BitOrder} {width n : Nat} {read : Read α} {next : α → Read β}
  {front back : List Bool} {a : α} {b : β}

/-- The numbers that are there have magnitudes of `width` bits. -/
def FitIn (width : Nat) (values : List (Option Int)) : Prop :=
  ∀ value ∈ values, ∀ present ∈ value, present.natAbs < 2 ^ width

instance (width : Nat) (values : List (Option Int)) : Decidable (FitIn width values) :=
  inferInstanceAs (Decidable (∀ value ∈ values, ∀ present ∈ value, present.natAbs < 2 ^ width))

/-- In front of `bits` the read yields `a` and moves past exactly these bits. -/
def Takes (order : BitOrder) (read : Read α) (bits : List Bool) (a : α) : Prop :=
  ∀ (byteLength position : Nat) (tail : List Bool),
    read ⟨order, byteLength, position, bits ++ tail⟩ =
      .ok (a, ⟨order, byteLength, position + bits.length, tail⟩)

theorem takes_pure (a : α) : Takes order (pure a) [] a := fun _ _ _ => rfl

/-- Behind a read, a sequence goes on behind its bits. -/
theorem Takes.run_bind (h : Takes order read front a) (byteLength position : Nat)
    (tail : List Bool) :
    (read >>= next) ⟨order, byteLength, position, front ++ tail⟩ =
      next a ⟨order, byteLength, position + front.length, tail⟩ := by
  simp only [bind, StateT.bind, h byteLength position tail, Except.bind]

/-- A sequence ends with a read that fails. -/
theorem run_bind_of_error {stream : BitStream} {fault : Fault} (h : read stream = .error fault) :
    (read >>= next) stream = .error fault := by
  simp only [bind, StateT.bind, h, Except.bind]

/-- What is known without reading is handed on. -/
theorem run_liftM_bind (a : α) (next : α → Read β) (stream : BitStream) :
    ((liftM (Except.ok a : Except Fault α) : Read α) >>= next) stream = next a stream := rfl

theorem run_get_bind (next : BitStream → Read β) (stream : BitStream) :
    ((get : Read BitStream) >>= next) stream = next stream stream := rfl

/-- A condition that holds lets the rest of a sequence run. -/
theorem run_ensure_bind {p : Prop} [Decidable p] (h : p) (cause : Cause) (notes : List Note)
    (next : Unit → Read β) (stream : BitStream) :
    (ensure p cause notes >>= next) stream = next () stream := by
  rw [ensure, if_pos h]
  rfl

/-- **Reads in sequence.** The second read takes what stands behind the bits of the first. -/
theorem Takes.bind (h₁ : Takes order read front a) (h₂ : Takes order (next a) back b) :
    Takes order (read >>= next) (front ++ back) b := by
  intro byteLength position tail
  rw [List.append_assoc, h₁.run_bind, h₂, List.length_append, Nat.add_assoc]

/-- The last read of a sequence may be followed by a result made of what was read. -/
theorem Takes.map (h₁ : Takes order read front a) (h₂ : Takes order (next a) [] b) :
    Takes order (read >>= next) front b := by
  simpa only [List.append_nil] using h₁.bind h₂

/-- A field is read as the number whose digits are there. -/
theorem takes_field (hwidth : width ≤ maxFieldWidth) (h : n < 2 ^ width) :
    Takes order (field width) (order.digits width n) n := by
  intro byteLength position tail
  have hlength := order.length_digits width n
  have hle : width ≤ (order.digits width n ++ tail).length := by
    rw [List.length_append]
    omega
  rw [field_eq_ok hwidth hle]
  simp only [List.take_left' hlength, List.drop_left' hlength, order.value_digits h, hlength]

theorem toNat_beq_one (bit : Bool) : (bit.toNat == 1) = bit := by cases bit <;> rfl

theorem takes_flag (bit : Bool) : Takes order flag [bit] bit := by
  rw [← order.digits_one bit]
  refine Takes.map (takes_field (by decide) bit.toNat_lt) ?_
  rw [toNat_beq_one]
  exact takes_pure bit

theorem wrap32_eq {value : Int} (h : value.natAbs < 2 ^ 31) : wrap32 value = value := by
  rw [wrap32]
  exact Int.bmod_eq_of_le (by omega) (by omega)

/-- A number with a sign is read back, whichever sign a zero has. -/
theorem takes_signed (hwidth : width ≤ 31) (negatesZero : Bool) {value : Int}
    (h : value.natAbs < 2 ^ width) :
    Takes order (signed width) (order.signedBits width negatesZero value) value := by
  have hpow : 2 ^ width ≤ 2 ^ 31 := Nat.pow_le_pow_right (by decide) hwidth
  have hmagnitude : wrap32 (value.natAbs : Int) = value.natAbs := wrap32_eq (by omega)
  refine (takes_field (Nat.le_trans hwidth (by decide)) h).bind ?_
  refine (takes_flag _).map ?_
  rw [hmagnitude]
  by_cases hzero : value = 0
  · -- zero is its own negative, so its sign is not seen
    subst hzero
    cases negatesZero <;> exact takes_pure 0
  · rw [if_neg hzero]
    by_cases hneg : value < 0
    · have hvalue : wrap32 (-(value.natAbs : Int)) = value := by
        rw [wrap32_eq (by omega)]
        omega
      rw [if_pos (decide_eq_true hneg), hvalue]
      exact takes_pure value
    · have hvalue : (value.natAbs : Int) = value := by omega
      rw [if_neg (by rwa [decide_eq_true_eq]), hvalue]
      exact takes_pure value

theorem takes_optional_none : Takes order (optional read) [false] none :=
  (takes_flag false).map (takes_pure none)

theorem takes_optional_some (h : Takes order read front a) :
    Takes order (optional read) (true :: front) (some a) :=
  (takes_flag true).bind (h.map (takes_pure (some a)))

/-- A number that may be left out is found if it is there. -/
theorem takes_optional_signed (hwidth : width ≤ 31) (negatesZero : Bool) {value : Option Int}
    (h : ∀ present ∈ value, present.natAbs < 2 ^ width) :
    Takes order (optional (signed width)) (order.optionalBits width negatesZero value) value := by
  cases value with
  | none => exact takes_optional_none
  | some present => exact takes_optional_some (takes_signed hwidth negatesZero (h present rfl))

/-- Numbers that may be left out are found one after another. -/
theorem takes_optionals {count : Nat} (hwidth : width ≤ 31) (negatesZero : Nat → Bool)
    {values : List (Option Int)} (hlength : values.length = count) (h : FitIn width values) :
    Takes order (repeated (optional (signed width)) count)
      (order.optionalsBits width negatesZero values) values := by
  subst hlength
  induction values generalizing negatesZero with
  | nil => exact takes_pure []
  | cons value values ih =>
    obtain ⟨hvalue, hvalues⟩ := List.forall_mem_cons.mp h
    exact (takes_optional_signed hwidth (negatesZero 0) hvalue).bind
      ((ih (fun i => negatesZero (i + 1)) hvalues).map (takes_pure _))

end BitStream

end WebP
