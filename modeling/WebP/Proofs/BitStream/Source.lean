import WebP.Proofs.BitStream.Slices

/-!
# Reading from a source of bits

Bits may come from a source of which only little is known: it hands out the bits of a byte string in
an order, and it refuses to read past their end. A reader on top of it adds the fields of several
bits and the reports of faults. It gives the replies that a bit stream gives, so that it reads
slices of the bits as well.

## Main definitions

* `WebP.BitSource`, `WebP.BitSource.reader`: a source of bits, and the reader on top of it.
* `WebP.BitSource.IsLawful`: what is assumed of a source.
* `WebP.BitReader.Matches`: two readers between which no request can tell.
* `WebP.BitQueue`: a queue of bits, which is a lawful source.

## Main results

* `WebP.BitReader.Matches.runAll_eq`: readers that match give the same replies.
* `WebP.BitSource.readsSlices`: a reader on top of a lawful source reads slices of the bits.
-/

namespace WebP

/-! ### Sources -/

/-- Why a source of bits gives nothing. -/
inductive BitFailure where
  | endReached
  | other (note : Note)
deriving DecidableEq, Repr

/-- The fault that is reported for a failure. Only the end of the bits means that something is cut
off. -/
def BitFailure.fault (notes : List Note) : BitFailure → Fault
  | endReached => ⟨.truncatedChunk, .endOfBits :: notes⟩
  | other note => ⟨.invalidInput, [note]⟩

/-- A source of the bits of byte strings. -/
structure BitSource (σ : Type) where
  ofBytes : BitOrder → Bytes → σ
  read : (width : Nat) → StateT σ (Except BitFailure) Nat
  readBit : StateT σ (Except BitFailure) Bool
  position : StateT σ (Except BitFailure) Nat

namespace BitSource

variable {σ : Type} (source : BitSource σ)

/-- The reader on top of a source for a string of `byteLength` bytes. It does not ask for fields
without bits. -/
def reader (byteLength : Nat) : BitReader σ where
  number width :=
    if width = 0 then
      pure 0
    else
      fun s => (source.read width s).mapError (·.fault [.bitsOutOfBounds width byteLength])
  bit := fun s => (source.readBit s).mapError (·.fault [.bitsOutOfBounds 1 byteLength])
  position := fun s => (source.position s).mapError (·.fault [])

/-- The replies of the reader at the start of a byte string. -/
def serve (order : BitOrder) (data : Bytes) (requests : List BitRequest) : BitReplies :=
  (source.reader data.length).runAll requests (source.ofBytes order data)

/-- The source hands out bits, where `shows` tells the order, the number of bits that were handed
out and those that are ahead in a state. -/
structure HandsOut (shows : BitOrder → Nat → List Bool → σ → Prop) : Prop where
  ofBytes : ∀ (order : BitOrder) (data : Bytes),
    shows order 0 (data.flatMap order.bits) (source.ofBytes order data)
  position : ∀ {order : BitOrder} {count : Nat} {ahead : List Bool} {s : σ},
    shows order count ahead s →
      ∃ s', source.position s = .ok (count, s') ∧ shows order count ahead s'
  readBit_cons : ∀ {order : BitOrder} {count : Nat} {bit : Bool} {ahead : List Bool} {s : σ},
    shows order count (bit :: ahead) s →
      ∃ s', source.readBit s = .ok (bit, s') ∧ shows order (count + 1) ahead s'
  readBit_nil : ∀ {order : BitOrder} {count : Nat} {s : σ},
    shows order count [] s → source.readBit s = .error .endReached
  read_append : ∀ {order : BitOrder} {count : Nat} {bits ahead : List Bool} {s : σ},
    0 < bits.length → bits.length ≤ 32 → shows order count (bits ++ ahead) s →
      ∃ n s', source.read bits.length s = .ok (n, s') ∧ n < 2 ^ bits.length ∧
        order.digits bits.length n = bits ∧ shows order (count + bits.length) ahead s'
  read_short : ∀ {order : BitOrder} {count width : Nat} {ahead : List Bool} {s : σ},
    ahead.length < width → width ≤ 32 → shows order count ahead s →
      source.read width s = .error .endReached

/-- **What is assumed of a source.** It hands out the bits of byte strings in their order and says
when they have come to their end. -/
def IsLawful : Prop := ∃ shows, source.HandsOut shows

end BitSource

/-! ### Readers that match -/

section Alike

variable {σ τ α β : Type} {R : σ → τ → Prop}

/-- In related states two steps have the same result, and leave related states if they succeed. -/
def Alike (R : σ → τ → Prop) (left : StateT σ (Except Fault) α)
    (right : StateT τ (Except Fault) α) : Prop :=
  ∀ ⦃s : σ⦄ ⦃t : τ⦄, R s t →
    (∃ a s' t', left s = .ok (a, s') ∧ right t = .ok (a, t') ∧ R s' t') ∨
      ∃ fault, left s = .error fault ∧ right t = .error fault

theorem alike_pure (a : α) : Alike R (pure a) (pure a) :=
  fun _ _ h => .inl ⟨a, _, _, rfl, rfl, h⟩

theorem Alike.bind {left : StateT σ (Except Fault) α} {right : StateT τ (Except Fault) α}
    {left' : α → StateT σ (Except Fault) β} {right' : α → StateT τ (Except Fault) β}
    (h : Alike R left right) (h' : ∀ a, Alike R (left' a) (right' a)) :
    Alike R (left >>= left') (right >>= right') := by
  intro s t hst
  rcases h hst with ⟨a, s', t', hs, ht, hst'⟩ | ⟨fault, hs, ht⟩
  · have hleft : (left >>= left') s = left' a s' := by
      simp only [Bind.bind, StateT.bind, hs, Except.bind]
    have hright : (right >>= right') t = right' a t' := by
      simp only [Bind.bind, StateT.bind, ht, Except.bind]
    rw [hleft, hright]
    exact h' a hst'
  · refine .inr ⟨fault, ?_, ?_⟩
    · simp only [Bind.bind, StateT.bind, hs, Except.bind]
    · simp only [Bind.bind, StateT.bind, ht, Except.bind]

end Alike

namespace BitReader

variable {σ τ : Type} {R : σ → τ → Prop} {left : BitReader σ} {right : BitReader τ}

/-- Whatever can be asked for, the two readers answer it in the same way. -/
structure Matches (R : σ → τ → Prop) (left : BitReader σ) (right : BitReader τ) : Prop where
  number : ∀ {width : Nat}, width ≤ 32 → Alike R (left.number width) (right.number width)
  bit : Alike R left.bit right.bit
  position : Alike R left.position right.position

namespace Matches

variable {α : Type} {width : Nat} {request : BitRequest} {requests : List BitRequest}

theorem signed (h : Matches R left right) (hwidth : width ≤ 31) :
    Alike R (left.signed width) (right.signed width) := by
  refine (h.number (Nat.le_trans hwidth (by decide))).bind fun magnitude => h.bit.bind fun bit => ?_
  cases bit <;> exact alike_pure _

theorem optional (h : Matches R left right) {read : StateT σ (Except Fault) α}
    {read' : StateT τ (Except Fault) α} (hread : Alike R read read') :
    Alike R (left.optional read) (right.optional read') := by
  refine h.bit.bind fun bit => ?_
  cases bit with
  | false => exact alike_pure none
  | true => exact hread.bind fun a => alike_pure (some a)

theorem bytesConsumed (h : Matches R left right) :
    Alike R left.bytesConsumed right.bytesConsumed :=
  h.position.bind fun count => alike_pure ((count + 7) / 8)

/-- **One request.** Readers that match answer it in the same way. -/
theorem run (h : Matches R left right) (hallowed : request.IsAllowed) :
    Alike R (left.run request) (right.run request) := by
  cases request with
  | read kind =>
    cases kind with
    | number width => exact (h.number hallowed).bind fun n => alike_pure _
    | bit => exact h.bit.bind fun bit => alike_pure _
    | signed width => exact (h.signed hallowed).bind fun z => alike_pure _
    | optional width => exact (h.optional (h.number hallowed)).bind fun n => alike_pure _
    | optionalSigned width => exact (h.optional (h.signed hallowed)).bind fun z => alike_pure _
  | position => exact h.position.bind fun count => alike_pure _
  | bytesConsumed => exact h.bytesConsumed.bind fun count => alike_pure _

/-- Readers that match give the same replies to any list of requests. -/
theorem runAll_eq (h : Matches R left right)
    (hallowed : ∀ request ∈ requests, request.IsAllowed) {s : σ} {t : τ} (hst : R s t) :
    left.runAll requests s = right.runAll requests t := by
  induction requests generalizing s t with
  | nil => rfl
  | cons request requests ih =>
    obtain ⟨hrequest, hrequests⟩ := List.forall_mem_cons.mp hallowed
    rcases h.run hrequest hst with ⟨answer, s', t', hs, ht, hst'⟩ | ⟨fault, hs, ht⟩
    · rw [runAll_cons_of_ok hs, runAll_cons_of_ok ht, ih hrequests hst']
    · rw [runAll_cons_of_error hs, runAll_cons_of_error ht]

end Matches

end BitReader

/-! ### Lawful sources -/

namespace BitSource

variable {σ : Type} {source : BitSource σ} {shows : BitOrder → Nat → List Bool → σ → Prop}

/-- The state of the source shows what the bit stream is about to read. -/
def ShowsStream (shows : BitOrder → Nat → List Bool → σ → Prop) (byteLength : Nat) (s : σ)
    (stream : BitStream) : Prop :=
  stream.byteLength = byteLength ∧ shows stream.order stream.position stream.rest s

/-- At the start the source shows the bits of the byte string. -/
theorem HandsOut.showsStream_ofBytes (h : source.HandsOut shows) (order : BitOrder)
    (data : Bytes) :
    ShowsStream shows data.length (source.ofBytes order data) (.ofBytes order data) :=
  ⟨rfl, h.ofBytes order data⟩

/-- A reader on top of a source that hands out bits matches the bit streams. -/
theorem HandsOut.matches_reader (h : source.HandsOut shows) (byteLength : Nat) :
    (source.reader byteLength).Matches (ShowsStream shows byteLength) BitStream.reader where
  number {width} hwidth s stream hshows := by
    obtain ⟨rfl, hshows⟩ := hshows
    obtain ⟨order, byteLength, position, rest⟩ := stream
    rcases exists_eq_append_or_isProperPrefix width rest with
      ⟨bits, rest, rfl, rfl⟩ | ⟨bits, rfl, hprefix⟩
    · have htakes := (BitStream.takesAll_value order hwidth).takes byteLength position rest
      by_cases hzero : bits.length = 0
      · -- a field without bits is not asked of the source
        obtain rfl := List.eq_nil_of_length_eq_zero hzero
        have hvalue : order.value [] = 0 := by cases order <;> rfl
        rw [hvalue] at htakes
        exact .inl ⟨0, s, _, rfl, htakes, rfl, hshows⟩
      · obtain ⟨n, s', hs, hlt, hdigits, hshows'⟩ :=
          h.read_append (Nat.pos_of_ne_zero hzero) hwidth hshows
        have hvalue := order.value_digits hlt
        rw [hdigits] at hvalue
        rw [hvalue] at htakes
        refine .inl ⟨n, s', _, ?_, htakes, rfl, hshows'⟩
        simp only [reader, if_neg hzero, hs]
        rfl
    · have hlt := hprefix.length_lt
      refine .inr ⟨_, ?_, BitStream.field_eq_error hwidth hlt⟩
      simp only [reader, if_neg (Nat.ne_zero_of_lt hlt), h.read_short hlt hwidth hshows]
      rfl
  bit s stream hshows := by
    obtain ⟨rfl, hshows⟩ := hshows
    obtain ⟨order, byteLength, position, rest⟩ := stream
    cases rest with
    | nil =>
      have hfield : BitStream.field 1 ⟨order, byteLength, position, []⟩ = _ :=
        BitStream.field_eq_error (by decide) Nat.one_pos
      refine .inr ⟨_, ?_, BitStream.run_bind_of_error hfield⟩
      simp only [reader, h.readBit_nil hshows]
      rfl
    | cons bit rest =>
      obtain ⟨s', hs, hshows'⟩ := h.readBit_cons hshows
      refine .inl ⟨bit, s', _, ?_, BitStream.takes_flag bit byteLength position rest, rfl, hshows'⟩
      simp only [reader, hs]
      rfl
  position s stream hshows := by
    obtain ⟨rfl, hshows⟩ := hshows
    obtain ⟨s', hs, hshows'⟩ := h.position hshows
    refine .inl ⟨_, s', stream, ?_, rfl, rfl, hshows'⟩
    simp only [reader, hs]
    rfl

/-- A lawful source gives the replies of a bit stream. -/
theorem IsLawful.serve_eq (h : source.IsLawful) (order : BitOrder) (data : Bytes)
    {requests : List BitRequest} (hallowed : ∀ request ∈ requests, request.IsAllowed) :
    source.serve order data requests = BitStream.serve order data requests := by
  obtain ⟨shows, hshows⟩ := h
  exact (hshows.matches_reader data.length).runAll_eq hallowed
    (hshows.showsStream_ofBytes order data)

end BitSource

/-- **Readers read slices of the bits.** Whatever the source of the bits, the reader on top of it
gives the replies of a bit stream, and these are what the bits say. -/
theorem BitSource.readsSlices {σ : Type} {source : BitSource σ} (h : source.IsLawful) :
    ReadsSlices source.serve ∧
      ∀ (order : BitOrder) (data : Bytes) {requests : List BitRequest},
        (∀ request ∈ requests, request.IsAllowed) →
          source.serve order data requests = BitStream.serve order data requests :=
  ⟨BitStream.readsSlices_serve.congr fun order data => h.serve_eq order data,
    fun order data => h.serve_eq order data⟩

/-! ### A queue of bits -/

/-- Bits that wait to be handed out, with the number of those that were. -/
structure BitQueue where
  order : BitOrder
  count : Nat
  waiting : List Bool
deriving DecidableEq, Repr

namespace BitQueue

/-- A queue of the bits of a byte string as a source. -/
def source : BitSource BitQueue where
  ofBytes order data := ⟨order, 0, data.flatMap order.bits⟩
  read width := fun queue =>
    if 32 < width then
      .error (.other .tooManyBits)
    else if queue.waiting.length < width then
      .error .endReached
    else
      .ok (queue.order.value (queue.waiting.take width),
        ⟨queue.order, queue.count + width, queue.waiting.drop width⟩)
  readBit := fun queue =>
    match queue.waiting with
    | [] => .error .endReached
    | bit :: waiting => .ok (bit, ⟨queue.order, queue.count + 1, waiting⟩)
  position := fun queue => .ok (queue.count, queue)

theorem isLawful_source : source.IsLawful := by
  refine ⟨fun order count ahead queue => queue = ⟨order, count, ahead⟩, ?_⟩
  constructor
  case ofBytes => exact fun order data => rfl
  case position => exact fun hqueue => ⟨_, hqueue ▸ rfl, hqueue⟩
  case readBit_cons => exact fun hqueue => ⟨_, hqueue ▸ rfl, rfl⟩
  case readBit_nil => exact fun hqueue => hqueue ▸ rfl
  case read_append =>
    rintro order count bits ahead queue - hwidth rfl
    refine ⟨order.value bits, ⟨order, count + bits.length, ahead⟩, ?_, order.value_lt bits,
      order.digits_value bits, rfl⟩
    have hlength : ¬ (bits ++ ahead).length < bits.length := by
      rw [List.length_append]
      omega
    simp only [source, if_neg (Nat.not_lt.mpr hwidth), if_neg hlength, List.take_left,
      List.drop_left]
  case read_short =>
    rintro order count width ahead queue hlt hwidth rfl
    simp only [source, if_neg (Nat.not_lt.mpr hwidth), if_pos hlt]

/-- A queue meets what is assumed of a source, and it is read like this. -/
theorem readsSlices_source :
    source.IsLawful ∧ ReadsSlices source.serve ∧
      source.serve .mostSignificantFirst [0xb2, 0x7f]
          [.read (.number 1), .read (.number 2), .read (.number 7), .position, .bytesConsumed,
            .read (.optionalSigned 2), .read (.number 5)] =
        ⟨[.number 1, .number 1, .number 73, .number 10, .number 2, .optionalInteger (some (-3))],
          some ⟨.truncatedChunk, [.endOfBits, .bitsOutOfBounds 5 2]⟩⟩ :=
  ⟨isLawful_source, (BitSource.readsSlices isLawful_source).1, by decide +kernel⟩

end BitQueue

end WebP
