import Mathlib.Data.List.Forall2
import Mathlib.Data.Option.Defs
import WebP.Parser

/-!
# Parsers and latches

All that a parser keeps from one input to the next is a latch: the cause, if there is one, for
which it refuses every input until it is cleared. Apart from that it reads each input as a parser
does that was just made. This holds of any number of parsers that are copied from one another and
called in any order, and a copy goes its own way from the moment it is made.

A parser remembers its state and its status in two places. Wherever calls lead to, the two agree.

## Main definitions

* `WebP.Parser.Agrees`: the state and the status of a parser agree.
* `WebP.Latch`: a latch, with the status that it shows and whether an input has come.
* `WebP.ParserCall`: a call of one of several machines, with `ParserCall.runAll`.
* `WebP.Latch.IsOf`: the state and the status agree, and the parser shows what its latch says.

## Main results

* `WebP.Parser.isOf_parseUnlatched`: what an input leaves behind in a parser.
* `WebP.ParserCall.runAll_related`: machines that answer each call alike answer all calls alike.
* `WebP.Parser.runAll_eq_latches`: parsers answer every sequence of calls as latches do.
-/

namespace WebP

/-- **State and status agree.** The status is that of the fault in which the last input failed, if
it did. The chunks of a file are expected only while it is read. -/
inductive Parser.Agrees : Parser → Prop where
  | untouched (config : Config) : Agrees ⟨config, .ok, .expectsFile⟩
  | done (config : Config) : Agrees ⟨config, .ok, .done⟩
  | failed (config : Config) (cause : Cause) : Agrees ⟨config, cause.status, .failed cause⟩

/-- A latch in front of parsers that are each made for a single input. -/
structure Latch where
  /-- Why every input is refused. -/
  cause : Option Cause := none
  /-- How the last input went, of those that were not refused. -/
  status : Status := .ok
  /-- No input has come since the latch was made or cleared. -/
  untouched : Bool := true

namespace Latch

/-- The latch behind an input that was read with the given result. -/
def after : Except Fault FileHeader → Latch
  | .ok _ => { untouched := false }
  | .error fault =>
    { cause := if fault.status.isRecoverable then none else some fault.cause
      status := fault.status
      untouched := false }

/-- A latch that holds a cause refuses the input for it and keeps the cause and the status.
Behind any other, the input is read by a parser of its own. -/
def parse (config : Config) (latch : Latch) (data : Bytes) : Parsed FileHeader × Latch :=
  match latch.cause with
  | some cause => (.fail cause [.parserNotCleared], { latch with untouched := false })
  | none => (WebP.parse config data, after (WebP.parse config data).result)

/-- The parser has the settings, its state and its status agree, and it shows what the latch
says. -/
structure IsOf (config : Config) (parser : Parser) (latch : Latch) : Prop where
  config_eq : parser.config = config
  agrees : parser.Agrees
  latched?_eq : parser.latched? = latch.cause
  status_eq : parser.status = latch.status
  isClear_eq : parser.isClear = latch.untouched

end Latch

/-- What a machine is asked for. -/
inductive ParserRequest where
  | parse (data : Bytes)
  | clear
  | clone
deriving DecidableEq, Repr

/-- A request to the machine in a slot. -/
structure ParserCall where
  slot : Nat
  request : ParserRequest
deriving DecidableEq, Repr

namespace ParserCall

variable {σ τ : Type}

/-- The effect of a call on the machines in their slots, with the answer if an input was to be
parsed. A copy is put behind the last slot, and a call of an empty slot does nothing. -/
def run (parse : σ → Bytes → Parsed FileHeader × σ) (clear : σ → σ) (slots : List σ)
    (call : ParserCall) : Option (Parsed FileHeader) × List σ :=
  match slots[call.slot]? with
  | none => (none, slots)
  | some machine =>
    match call.request with
    | .parse data => (some (parse machine data).1, slots.set call.slot (parse machine data).2)
    | .clear => (none, slots.set call.slot (clear machine))
    | .clone => (none, slots ++ [machine])

/-- The answers to one call after another, and the machines afterwards. -/
def runAll (parse : σ → Bytes → Parsed FileHeader × σ) (clear : σ → σ) :
    List σ → List ParserCall → List (Option (Parsed FileHeader)) × List σ
  | slots, [] => ([], slots)
  | slots, call :: calls =>
    let step := call.run parse clear slots
    let rest := runAll parse clear step.2 calls
    (step.1 :: rest.1, rest.2)

theorem forall₂_set {R : σ → τ → Prop} {slots : List σ} {others : List τ}
    (h : List.Forall₂ R slots others) {s : σ} {t : τ} (hst : R s t) (slot : Nat) :
    List.Forall₂ R (slots.set slot s) (others.set slot t) := by
  induction h generalizing slot with
  | nil => exact .nil
  | cons hhead htail ih =>
    cases slot with
    | zero => exact .cons hst htail
    | succ slot => exact .cons hhead (ih slot)

theorem rel_getElem? {R : σ → τ → Prop} {slots : List σ} {others : List τ}
    (h : List.Forall₂ R slots others) (slot : Nat) :
    Option.Rel R slots[slot]? others[slot]? := by
  induction h generalizing slot with
  | nil => exact .none
  | cons hhead htail ih =>
    cases slot with
    | zero => exact .some hhead
    | succ slot => exact ih slot

section Related

variable {R : σ → τ → Prop} {parse : σ → Bytes → Parsed FileHeader × σ} {clear : σ → σ}
  {parse' : τ → Bytes → Parsed FileHeader × τ} {clear' : τ → τ}
  (hparse : ∀ {s t}, R s t → ∀ data,
    (parse s data).1 = (parse' t data).1 ∧ R (parse s data).2 (parse' t data).2)
  (hclear : ∀ {s t}, R s t → R (clear s) (clear' t))
  {slots : List σ} {others : List τ}

include hparse hclear

/-- Machines that are related slot by slot give the same answer to a call and stay related. -/
theorem run_related (h : List.Forall₂ R slots others) (call : ParserCall) :
    (call.run parse clear slots).1 = (call.run parse' clear' others).1 ∧
      List.Forall₂ R (call.run parse clear slots).2 (call.run parse' clear' others).2 := by
  obtain ⟨slot, request⟩ := call
  have hslot := rel_getElem? h slot
  unfold run
  dsimp only
  generalize slots[slot]? = found at hslot ⊢
  generalize others[slot]? = found' at hslot ⊢
  cases hslot with
  | none => exact ⟨rfl, h⟩
  | some hrel =>
    cases request with
    | parse data =>
      obtain ⟨hanswer, hnext⟩ := hparse hrel data
      exact ⟨congrArg some hanswer, forall₂_set h hnext slot⟩
    | clear => exact ⟨rfl, forall₂_set h (hclear hrel) slot⟩
    | clone => exact ⟨rfl, List.rel_append h (.cons hrel .nil)⟩

/-- **Machines alike.** Machines that are related slot by slot give the same answers to all calls
and stay related. -/
theorem runAll_related (h : List.Forall₂ R slots others) (calls : List ParserCall) :
    (runAll parse clear slots calls).1 = (runAll parse' clear' others calls).1 ∧
      List.Forall₂ R (runAll parse clear slots calls).2 (runAll parse' clear' others calls).2 := by
  induction calls generalizing slots others with
  | nil => exact ⟨rfl, h⟩
  | cons call calls ih =>
    obtain ⟨hanswer, hslots⟩ := run_related hparse hclear h call
    obtain ⟨hanswers, hlast⟩ := ih hslots
    exact ⟨congrArg₂ List.cons hanswer hanswers, hlast⟩

end Related

end ParserCall

namespace Parser

variable {parser : Parser} {data : Bytes} {latch : Latch} {config : Config}

theorem parse_of_latched {cause : Cause} (h : parser.latched? = some cause) :
    parser.parse data = (.fail cause [.parserNotCleared], parser) := by
  rw [parse, h]

theorem parse_of_not_latched (h : parser.latched? = none) :
    parser.parse data = parser.parseUnlatched data := by
  rw [parse, h]

/-- What is remembered of an input that was read. -/
theorem parseUnlatched_snd_of_ok {header : FileHeader}
    (h : (FileHeader.read parser.config data).result = .ok header) :
    (parser.parseUnlatched data).2 = ⟨parser.config, .ok, .done⟩ := by
  have hrun : (parser.clear.run data).1.result = .ok header := h
  simp only [parseUnlatched, hrun, config_run, status_run]
  rfl

/-- What is remembered of an input that was refused. -/
theorem parseUnlatched_snd_of_error {fault : Fault}
    (h : (FileHeader.read parser.config data).result = .error fault) :
    (parser.parseUnlatched data).2 = ⟨parser.config, fault.status, .failed fault.cause⟩ := by
  have hrun : (parser.clear.run data).1.result = .error fault := h
  simp only [parseUnlatched, hrun, config_run]
  rfl

/-- Behind no latch a parser reads an input as a parser does that was just made. -/
theorem parseUnlatched_fst (parser : Parser) (data : Bytes) :
    (parser.parseUnlatched data).1 = WebP.parse parser.config data := by
  change _ = (Parser.parseUnlatched { config := parser.config } data).1
  rw [parseUnlatched, parseUnlatched]
  rfl

/-- A parser that refuses every input has had one. -/
theorem isClear_of_latched {cause : Cause} (h : parser.latched? = some cause) :
    parser.isClear = false := by
  obtain ⟨_, status, state⟩ := parser
  cases state with
  | failed found => rfl
  | expectsFile | expectsChunks | done => cases h

/-- **What an input leaves behind** in a parser is a latch, and the state and the status of the
parser agree, whatever was there before. -/
theorem isOf_parseUnlatched (parser : Parser) (data : Bytes) :
    Latch.IsOf parser.config (parser.parseUnlatched data).2
      (.after (WebP.parse parser.config data).result) := by
  rw [← parseUnlatched_fst, result_parseUnlatched]
  cases h : (FileHeader.read parser.config data).result with
  | ok header =>
    rw [parseUnlatched_snd_of_ok h]
    exact ⟨rfl, .done parser.config, rfl, rfl, rfl⟩
  | error fault =>
    rw [parseUnlatched_snd_of_error h]
    exact ⟨rfl, .failed parser.config fault.cause, rfl, rfl, rfl⟩

/-- A parser and its latch answer alike. -/
theorem parse_isOf (h : Latch.IsOf config parser latch) (data : Bytes) :
    (parser.parse data).1 = (latch.parse config data).1 ∧
      Latch.IsOf config (parser.parse data).2 (latch.parse config data).2 := by
  obtain ⟨rfl, hagrees, hlatched, hstatus, -⟩ := h
  unfold Latch.parse
  cases hcause : latch.cause with
  | some cause =>
    rw [hcause] at hlatched
    rw [parse_of_latched hlatched]
    exact ⟨rfl, rfl, hagrees, hlatched, hstatus, isClear_of_latched hlatched⟩
  | none =>
    rw [hcause] at hlatched
    rw [parse_of_not_latched hlatched]
    exact ⟨parser.parseUnlatched_fst data, parser.isOf_parseUnlatched data⟩

/-- **Fresh behind a latch.** Start with a single new parser, and make any calls on it and on
copies of it. Each answer is that of a latch in the same place, and so are, whenever one looks,
the refusal, the status and whether the parser is clear. -/
theorem runAll_eq_latches (config : Config) (calls : List ParserCall) :
    let parsers := ParserCall.runAll parse clear [{ config }] calls
    let latches := ParserCall.runAll (Latch.parse config) (fun _ => {}) [{}] calls
    parsers.1 = latches.1 ∧ List.Forall₂ (Latch.IsOf config) parsers.2 latches.2 := by
  refine ParserCall.runAll_related (R := Latch.IsOf config) parse_isOf ?_ ?_ calls
  · intro parser latch h
    exact ⟨h.config_eq, .untouched parser.config, rfl, rfl, rfl⟩
  · exact .cons ⟨rfl, .untouched config, rfl, rfl, rfl⟩ .nil

end Parser

end WebP
