import WebP.Proofs.BitStream.Join
import WebP.Proofs.BitStream.TakesAll

/-!
# Requests to a reader of bits

A reader of bits is asked for fields of several kinds, and for the position that it has come to. As
long as the fields fit into the bits, each of them is what the next bits say, and the position is
the number of all bits before. The first field that does not fit is refused. It does not matter
whether two numbers are asked for or the one that they form, and a list of fields that was written
is read again.

This module says what that means. It speaks of the replies to lists of requests, however a reader
gets them from a byte string.

## Main definitions

* `WebP.BitReader`: what a reader of bits offers. `BitStream.reader` is the one of bit streams.
* `WebP.BitRequest`, `WebP.BitAnswer`, `WebP.BitReader.runAll`: requests and the replies to them.
* `WebP.BitKind.Denotes`: what the bits that a field takes say.
* `WebP.IsServed`: the replies that the bits ask for.
* `WebP.ReadsSlices`: what is true of the replies to any list of requests.

## Main results

* `WebP.BitField.denotes_bits`: the bits of a field that was written say its value.
-/

namespace WebP

/-- What a reader of bits offers: numbers of given widths, single bits, and its position. -/
structure BitReader (σ : Type) where
  number : Nat → StateT σ (Except Fault) Nat
  bit : StateT σ (Except Fault) Bool
  position : StateT σ (Except Fault) Nat

namespace BitReader

variable {σ : Type} (reader : BitReader σ)

/-- A magnitude of `width` bits and a sign bit after it. -/
def signed (width : Nat) : StateT σ (Except Fault) Int := do
  let magnitude := BitStream.wrap32 (← reader.number width)
  if ← reader.bit then return BitStream.wrap32 (-magnitude) else return magnitude

/-- A field that is there only if the bit in front of it is set. -/
def optional {α : Type} (read : StateT σ (Except Fault) α) :
    StateT σ (Except Fault) (Option α) := do
  if ← reader.bit then return some (← read) else return none

/-- How many bytes hold the bits that have been read. -/
def bytesConsumed : StateT σ (Except Fault) Nat := do
  return ((← reader.position) + 7) / 8

end BitReader

namespace BitStream

/-- A bit stream as a reader of bits. -/
def reader : BitReader BitStream where
  number := field
  bit := flag
  position := fun stream => .ok (stream.position, stream)

theorem signed_reader : reader.signed = signed := rfl

theorem optional_reader {α : Type} (read : Read α) : reader.optional read = optional read := rfl

end BitStream

/-! ### Requests and replies -/

/-- The kinds of fields. -/
inductive BitKind where
  | number (width : Nat)
  | bit
  | signed (width : Nat)
  | optional (width : Nat)
  | optionalSigned (width : Nat)
deriving DecidableEq, Repr

/-- What a reader of bits can be asked for. -/
inductive BitRequest where
  | read (kind : BitKind)
  | position
  | bytesConsumed
deriving DecidableEq, Repr

/-- What a reader of bits answers. -/
inductive BitAnswer where
  | number (n : Nat)
  | bit (bit : Bool)
  | integer (z : Int)
  | optional (n : Option Nat)
  | optionalInteger (z : Option Int)
deriving DecidableEq, Repr

/-- The answers to a list of requests, up to the first one that fails. -/
structure BitReplies where
  answers : List BitAnswer
  fault : Option Fault
deriving DecidableEq, Repr

/-- The replies with answers in front of them. -/
def BitReplies.behind (answers : List BitAnswer) (replies : BitReplies) : BitReplies :=
  { replies with answers := answers ++ replies.answers }

@[simp] theorem BitReplies.behind_singleton_eq_iff {a b : BitAnswer} {replies : BitReplies}
    {answers : List BitAnswer} {fault : Option Fault} :
    replies.behind [a] = ⟨b :: answers, fault⟩ ↔ a = b ∧ replies = ⟨answers, fault⟩ := by
  obtain ⟨others, fault'⟩ := replies
  simp only [behind, List.cons_append, List.nil_append, mk.injEq, List.cons.injEq, and_assoc]

/-- The width is one that can be asked for: a number has at most 32 bits, and a magnitude leaves
one of them for the sign. -/
def BitKind.IsAllowed : BitKind → Prop
  | number width | optional width => width ≤ 32
  | signed width | optionalSigned width => width ≤ 31
  | bit => True

/-- The field is of a width that can be asked for. -/
def BitRequest.IsAllowed : BitRequest → Prop
  | read kind => kind.IsAllowed
  | position | bytesConsumed => True

instance : DecidablePred BitKind.IsAllowed
  | .number width | .optional width => inferInstanceAs (Decidable (width ≤ 32))
  | .signed width | .optionalSigned width => inferInstanceAs (Decidable (width ≤ 31))
  | .bit => .isTrue trivial

instance : DecidablePred BitRequest.IsAllowed
  | .read kind => inferInstanceAs (Decidable kind.IsAllowed)
  | .position | .bytesConsumed => .isTrue trivial

namespace BitReader

variable {σ : Type} (reader : BitReader σ)

/-- Reads a field. -/
def read : BitKind → StateT σ (Except Fault) BitAnswer
  | .number width => do return .number (← reader.number width)
  | .bit => do return .bit (← reader.bit)
  | .signed width => do return .integer (← reader.signed width)
  | .optional width => do return .optional (← reader.optional (reader.number width))
  | .optionalSigned width => do
    return .optionalInteger (← reader.optional (reader.signed width))

/-- Answers a request. -/
def run : BitRequest → StateT σ (Except Fault) BitAnswer
  | .read kind => reader.read kind
  | .position => do return .number (← reader.position)
  | .bytesConsumed => do return .number (← reader.bytesConsumed)

/-- Answers requests until one of them fails. -/
def runAll : List BitRequest → σ → BitReplies
  | [], _ => ⟨[], none⟩
  | request :: requests, s =>
    match reader.run request s with
    | .ok (answer, next) => (runAll requests next).behind [answer]
    | .error fault => ⟨[], some fault⟩

variable {reader} {request : BitRequest} {requests : List BitRequest} {s next : σ}

theorem runAll_cons_of_ok {answer : BitAnswer} (h : reader.run request s = .ok (answer, next)) :
    reader.runAll (request :: requests) s = (reader.runAll requests next).behind [answer] := by
  rw [runAll, h]

theorem runAll_cons_of_error {fault : Fault} (h : reader.run request s = .error fault) :
    reader.runAll (request :: requests) s = ⟨[], some fault⟩ := by
  rw [runAll, h]

end BitReader

/-! ### What the bits say -/

namespace BitKind

/-- A magnitude with its sign. -/
def withSign (negative : Bool) (magnitude : Nat) : Int :=
  if negative then -magnitude else magnitude

/-- A field of a kind that takes `bits` has the given value. -/
inductive Denotes (order : BitOrder) : BitKind → (bits : List Bool) → BitAnswer → Prop where
  | number (bits : List Bool) :
      Denotes order (.number bits.length) bits (.number (order.value bits))
  | bit (bit : Bool) : Denotes order .bit [bit] (.bit bit)
  | signed (bits : List Bool) (negative : Bool) :
      Denotes order (.signed bits.length) (bits ++ [negative])
        (.integer (withSign negative (order.value bits)))
  | absent (width : Nat) : Denotes order (.optional width) [false] (.optional none)
  | present (bits : List Bool) :
      Denotes order (.optional bits.length) (true :: bits) (.optional (some (order.value bits)))
  | absentSigned (width : Nat) :
      Denotes order (.optionalSigned width) [false] (.optionalInteger none)
  | presentSigned (bits : List Bool) (negative : Bool) :
      Denotes order (.optionalSigned bits.length) (true :: (bits ++ [negative]))
        (.optionalInteger (some (withSign negative (order.value bits))))

/-- The bits come to an end before a field of the kind does. -/
def EndsInside (order : BitOrder) (kind : BitKind) (ahead : List Bool) : Prop :=
  ∃ bits answer, kind.Denotes order bits answer ∧ IsProperPrefix ahead bits

end BitKind

/-- **The replies to requests, by the bits that are ahead.** Behind `position` bits, each field is
what the next bits say, the number of bytes is the least one that holds all bits before, and a
field that does not fit is refused as cut off. -/
inductive IsServed (order : BitOrder) :
    (position : Nat) → (ahead : List Bool) → List BitRequest → BitReplies → Prop where
  | done (position : Nat) (ahead : List Bool) : IsServed order position ahead [] ⟨[], none⟩
  | read {position : Nat} {bits ahead : List Bool} {kind : BitKind} {answer : BitAnswer}
      {requests : List BitRequest} {replies : BitReplies} (field : kind.Denotes order bits answer)
      (others : IsServed order (position + bits.length) ahead requests replies) :
      IsServed order position (bits ++ ahead) (.read kind :: requests) (replies.behind [answer])
  | cutOff {position : Nat} {ahead : List Bool} {kind : BitKind} {requests : List BitRequest}
      {fault : Fault} (ends : kind.EndsInside order ahead)
      (truncated : fault.cause = .truncatedChunk) :
      IsServed order position ahead (.read kind :: requests) ⟨[], some fault⟩
  | position {position : Nat} {ahead : List Bool} {requests : List BitRequest}
      {replies : BitReplies} (others : IsServed order position ahead requests replies) :
      IsServed order position ahead (.position :: requests) (replies.behind [.number position])
  | bytesConsumed {position count : Nat} {ahead : List Bool} {requests : List BitRequest}
      {replies : BitReplies} (enough : position ≤ 8 * count) (least : 8 * count < position + 8)
      (others : IsServed order position ahead requests replies) :
      IsServed order position ahead (.bytesConsumed :: requests) (replies.behind [.number count])

/-! ### Fields that are written -/

/-- A field of some kind with its value. -/
inductive BitField where
  | number (width n : Nat)
  | bit (value : Bool)
  | signed (width magnitude : Nat) (negative : Bool)
  | optional (width : Nat) (n : Option Nat)
  | optionalSigned (width : Nat) (n : Option (Nat × Bool))
deriving DecidableEq, Repr

namespace BitField

def kind : BitField → BitKind
  | number width _ => .number width
  | bit _ => .bit
  | signed width _ _ => .signed width
  | optional width _ => .optional width
  | optionalSigned width _ => .optionalSigned width

/-- The value of the field. -/
def answer : BitField → BitAnswer
  | number _ n => .number n
  | bit value => .bit value
  | signed _ magnitude negative => .integer (BitKind.withSign negative magnitude)
  | optional _ n => .optional n
  | optionalSigned _ n =>
    .optionalInteger (n.map fun part => BitKind.withSign part.2 part.1)

/-- The numbers that are written for the field, each with its width. -/
def numbers : BitField → List (Nat × Nat)
  | number width n => [(width, n)]
  | bit value => [(1, value.toNat)]
  | signed width magnitude negative => [(width, magnitude), (1, negative.toNat)]
  | optional width n => (1, n.isSome.toNat) :: n.toList.map (width, ·)
  | optionalSigned width n =>
    (1, n.isSome.toNat) :: n.toList.flatMap fun part => [(width, part.1), (1, part.2.toNat)]

/-- The width can be asked for, and the value has no more bits. -/
def Fits (field : BitField) : Prop := field.kind.IsAllowed ∧ BitOrder.FitWidths field.numbers

/-- The bits that are written for the field. -/
def bits (order : BitOrder) (field : BitField) : List Bool :=
  field.numbers.flatMap fun number => order.digits number.1 number.2

theorem bits_number (order : BitOrder) (width n : Nat) :
    (number width n).bits order = order.digits width n :=
  List.append_nil _

theorem bits_bit (order : BitOrder) (value : Bool) : (bit value).bits order = [value] :=
  (List.append_nil _).trans (order.digits_one value)

theorem bits_signed (order : BitOrder) (width magnitude : Nat) (negative : Bool) :
    (signed width magnitude negative).bits order = order.digits width magnitude ++ [negative] :=
  congrArg (order.digits width magnitude ++ ·) (bits_bit order negative)

theorem bits_optional_none (order : BitOrder) (width : Nat) :
    (optional width none).bits order = [false] :=
  bits_bit order false

theorem bits_optional_some (order : BitOrder) (width n : Nat) :
    (optional width (some n)).bits order = true :: order.digits width n := by
  rw [← bits_number]
  exact congrArg (· ++ (number width n).bits order) (order.digits_one true)

theorem bits_optionalSigned_none (order : BitOrder) (width : Nat) :
    (optionalSigned width none).bits order = [false] :=
  bits_bit order false

theorem bits_optionalSigned_some (order : BitOrder) (width magnitude : Nat) (negative : Bool) :
    (optionalSigned width (some (magnitude, negative))).bits order =
      true :: (order.digits width magnitude ++ [negative]) := by
  rw [← bits_signed]
  exact congrArg (· ++ (signed width magnitude negative).bits order) (order.digits_one true)

/-- The bits of a field that was written say its value. -/
theorem denotes_bits (order : BitOrder) {field : BitField} (h : field.Fits) :
    field.kind.Denotes order (field.bits order) field.answer := by
  obtain ⟨-, hwidths⟩ := h
  -- a number that is written is the value of its digits, which may be any bits
  have hdigits {width n : Nat} (hmem : (width, n) ∈ field.numbers) :
      ∃ bs, order.digits width n = bs ∧ bs.length = width ∧ order.value bs = n :=
    ⟨_, rfl, order.length_digits width n, order.value_digits (hwidths (width, n) hmem)⟩
  cases field with
  | number width n =>
    obtain ⟨bs, hbits, rfl, rfl⟩ := hdigits (.head _)
    rw [bits_number, hbits]
    exact .number bs
  | bit value =>
    rw [bits_bit]
    exact .bit value
  | signed width magnitude negative =>
    obtain ⟨bs, hbits, rfl, rfl⟩ := hdigits (.head _)
    rw [bits_signed, hbits]
    exact .signed bs negative
  | optional width n =>
    cases n with
    | none =>
      rw [bits_optional_none]
      exact .absent width
    | some n =>
      obtain ⟨bs, hbits, rfl, rfl⟩ := hdigits (.tail _ (.head _))
      rw [bits_optional_some, hbits]
      exact .present bs
  | optionalSigned width n =>
    cases n with
    | none =>
      rw [bits_optionalSigned_none]
      exact .absentSigned width
    | some part =>
      obtain ⟨magnitude, negative⟩ := part
      obtain ⟨bs, hbits, rfl, rfl⟩ := hdigits (.tail _ (.head _))
      rw [bits_optionalSigned_some, hbits]
      exact .presentSigned bs negative

end BitField

/-- **What is true of the replies to any list of requests.** Here `serve` gives the replies of a
reader at the start of a byte string. -/
structure ReadsSlices (serve : BitOrder → Bytes → List BitRequest → BitReplies) : Prop where
  /-- The replies are what the bits of the byte string say. -/
  isServed : ∀ (order : BitOrder) (data : Bytes) {requests : List BitRequest},
    (∀ request ∈ requests, request.IsAllowed) →
      IsServed order 0 (data.flatMap order.bits) requests (serve order data requests)
  /-- Two numbers are read where the number that they form could have been read, whatever comes
  before and after. -/
  joins : ∀ (order : BitOrder) (data : Bytes) {front back : List BitRequest} {a b : Nat},
    (∀ request ∈ front, request.IsAllowed) → (∀ request ∈ back, request.IsAllowed) → a + b ≤ 32 →
      ∀ {before after : List BitAnswer} {n : Nat} {fault : Option Fault},
        before.length = front.length →
        (serve order data (front ++ .read (.number (a + b)) :: back) =
            ⟨before ++ .number n :: after, fault⟩ ↔
          ∃ x y, n = order.join a b x y ∧
            serve order data (front ++ .read (.number a) :: .read (.number b) :: back) =
              ⟨before ++ .number x :: .number y :: after, fault⟩)
  /-- Fields that were written are read, whatever stands behind them. -/
  reads_written : ∀ (order : BitOrder) {fields : List BitField},
    (∀ field ∈ fields, field.Fits) → ∀ trailing : Bytes,
      serve order (order.write (fields.flatMap BitField.numbers) ++ trailing)
          (fields.map fun field => .read field.kind) =
        ⟨fields.map BitField.answer, none⟩

/-- Replies that agree on requests that can be made are as good. -/
theorem ReadsSlices.congr {serve serve' : BitOrder → Bytes → List BitRequest → BitReplies}
    (h : ReadsSlices serve)
    (hsame : ∀ order data {requests : List BitRequest},
      (∀ request ∈ requests, request.IsAllowed) →
        serve' order data requests = serve order data requests) : ReadsSlices serve' where
  isServed order data {requests} hallowed := by
    rw [hsame order data hallowed]
    exact h.isServed order data hallowed
  joins order data {front back a b} hfront hback hwidth := by
    have hnumber {width : Nat} (hle : width ≤ a + b) :
        (BitRequest.read (.number width)).IsAllowed := Nat.le_trans hle hwidth
    have hjoined : ∀ request ∈ front ++ .read (.number (a + b)) :: back, request.IsAllowed :=
      List.forall_mem_append.mpr ⟨hfront, List.forall_mem_cons.mpr ⟨hnumber (Nat.le_refl _), hback⟩⟩
    have hsplit : ∀ request ∈ front ++ .read (.number a) :: .read (.number b) :: back,
        request.IsAllowed :=
      List.forall_mem_append.mpr ⟨hfront, List.forall_mem_cons.mpr ⟨hnumber (Nat.le_add_right a b),
        List.forall_mem_cons.mpr ⟨hnumber (Nat.le_add_left b a), hback⟩⟩⟩
    intro before after n fault
    rw [hsame order data hjoined, hsame order data hsplit]
    exact h.joins order data hfront hback hwidth
  reads_written order {fields} hfit trailing := by
    have hallowed : ∀ request ∈ fields.map fun field => BitRequest.read field.kind,
        request.IsAllowed :=
      List.forall_mem_map.mpr fun field hfield => (hfit field hfield).1
    rw [hsame order _ hallowed]
    exact h.reads_written order hfit trailing

end WebP
