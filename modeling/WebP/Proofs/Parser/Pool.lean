import WebP.Parser.Pool
import WebP.Proofs.Parser.Latch

/-!
# Parsers from a pool

Users take parsers from a pool, call them and copies of them in any order, and give them back in
whatever state they are in. A parser that waits in the pool is as it was made, so that all the pool
keeps is a number. Put that number in the place of the pool, and make a new parser whenever one is
taken: no user sees the difference.

## Main definitions

* `WebP.PoolCall`: a call of a pool or of a parser taken from it, with `PoolCall.runAll`.
* `WebP.Lending`: a pool and the parsers that were taken from it.
* `WebP.ParserPool.HandsOutNew`: what the next call of a pool does.

## Main results

* `WebP.Lending.Counts.run`: what a call preserves.
* `WebP.ParserPool.runAll_eq_counted`: a pool does the same as a number does.
-/

namespace WebP

/-- What is asked of a pool or of a parser taken from it. -/
inductive PoolCall where
  /-- Take a parser, which is put behind the last slot. -/
  | obtain
  /-- Give back the parser in a slot. -/
  | release (slot : Nat)
  /-- Call a parser in its slot. -/
  | use (call : ParserCall)
deriving DecidableEq, Repr

/-- A pool and the parsers that were taken from it and have not been given back. -/
structure Lending (π : Type) where
  pool : π
  lent : List Parser := []

namespace PoolCall

variable {π : Type}

/-- The effect of a call, with the answer if an input was to be parsed. Nothing can be done with an
empty slot. -/
def run (obtain : π → Parser × π) (release : π → Parser → π) (lending : Lending π) :
    PoolCall → Option (Parsed FileHeader) × Lending π
  | .obtain => (none, ⟨(obtain lending.pool).2, lending.lent ++ [(obtain lending.pool).1]⟩)
  | .release slot =>
    match lending.lent[slot]? with
    | none => (none, lending)
    | some parser => (none, ⟨release lending.pool parser, lending.lent.eraseIdx slot⟩)
  | .use call =>
    ((call.run Parser.parse Parser.clear lending.lent).1,
      { lending with lent := (call.run Parser.parse Parser.clear lending.lent).2 })

/-- The answers to one call after another, and what is left afterwards. -/
def runAll (obtain : π → Parser × π) (release : π → Parser → π) :
    Lending π → List PoolCall → List (Option (Parsed FileHeader)) × Lending π
  | lending, [] => ([], lending)
  | lending, call :: calls =>
    let step := call.run obtain release lending
    let rest := runAll obtain release step.2 calls
    (step.1 :: rest.1, rest.2)

end PoolCall

/-! ### Settings are kept -/

/-- What holds of all machines, and is kept by each when it is called, is kept by all of them. -/
theorem ParserCall.forall_mem_run {σ : Type} {P : σ → Prop}
    {parse : σ → Bytes → Parsed FileHeader × σ} {clear : σ → σ}
    (hparse : ∀ s data, P s → P (parse s data).2) (hclear : ∀ s, P s → P (clear s))
    {slots : List σ} (h : ∀ s ∈ slots, P s) (call : ParserCall) :
    ∀ s ∈ (call.run parse clear slots).2, P s := by
  have hsame : List.Forall₂ (fun s t => s = t ∧ P s) slots slots :=
    List.forall₂_same.mpr fun s hs => ⟨rfl, h s hs⟩
  have hnext : List.Forall₂ (fun s t => s = t ∧ P s) (call.run parse clear slots).2
      (call.run parse clear slots).2 := by
    refine (run_related ?_ ?_ hsame call).2
    · rintro s _ ⟨rfl, hs⟩ data
      exact ⟨rfl, rfl, hparse s data hs⟩
    · rintro s _ ⟨rfl, hs⟩
      exact ⟨rfl, hclear s hs⟩
  exact fun s hs => (List.forall₂_same.mp hnext s hs).2

/-- A parser keeps its settings whatever it is given to read. -/
@[simp] theorem Parser.config_parse (parser : Parser) (data : Bytes) :
    (parser.parse data).2.config = parser.config := by
  unfold parse
  split
  · rfl
  · exact (parser.isOf_parseUnlatched data).config_eq

/-! ### Pools and numbers -/

namespace ParserPool

variable {config : Config} {maxIdle count : Nat} {parser : Parser}

/-- The pool in which this many parsers wait, each as it was made. -/
def holding (config : Config) (maxIdle count : Nat) : ParserPool where
  config := config
  maxIdle := maxIdle
  idle := List.replicate count { config }

/-- To take a parser where only the number of waiting ones is known is to make one. -/
def obtainNew (config : Config) (count : Nat) : Parser × Nat := ({ config }, count - 1)

/-- One more parser waits, unless enough do. -/
def releaseCounted (maxIdle count : Nat) (_ : Parser) : Nat :=
  if count < maxIdle then count + 1 else count

theorem length_idle_holding (config : Config) (maxIdle count : Nat) :
    (holding config maxIdle count).idle.length = count :=
  List.length_replicate

theorem obtain_holding (config : Config) (maxIdle count : Nat) :
    (holding config maxIdle count).obtain = ({ config }, holding config maxIdle (count - 1)) := by
  cases count with
  | zero => rfl
  | succ count => rfl

theorem length_idle_release (pool : ParserPool) (parser : Parser) :
    (pool.release parser).idle.length = releaseCounted pool.maxIdle pool.idle.length parser := by
  rw [release, releaseCounted]
  split
  · rfl
  · rfl

/-- A parser with the settings of the pool is given back as it was made. -/
theorem release_holding (same : parser.config = config) :
    (holding config maxIdle count).release parser =
      holding config maxIdle (releaseCounted maxIdle count parser) := by
  have hclear : parser.clear = { config } := by
    rw [← same]
    rfl
  rw [release, length_idle_holding, releaseCounted, hclear]
  change (if count < maxIdle then _ else _) = _
  by_cases hfull : count < maxIdle
  · rw [if_pos hfull, if_pos hfull]
    rfl
  · rw [if_neg hfull, if_neg hfull]

/-- What the next call of a pool does. -/
structure HandsOutNew (config : Config) (maxIdle : Nat) (pool : ParserPool) : Prop where
  /-- The next parser that is taken is clear. -/
  isClear_obtain : pool.obtain.1.isClear
  config_obtain : pool.obtain.1.config = config
  /-- It reads its first input, whatever that is, as a parser does that was just made. -/
  parse_obtain : ∀ data, (pool.obtain.1.parse data).1 = WebP.parse config data
  length_idle_le : pool.idle.length ≤ maxIdle
  /-- One parser fewer waits, if any did. -/
  length_idle_obtain : pool.obtain.2.idle.length = pool.idle.length - 1
  /-- One more parser waits, unless enough do. -/
  length_idle_release : ∀ parser, (pool.release parser).idle.length =
    if pool.idle.length < maxIdle then pool.idle.length + 1 else pool.idle.length

theorem handsOutNew_holding (h : count ≤ maxIdle) :
    (holding config maxIdle count).HandsOutNew config maxIdle where
  isClear_obtain := by
    rw [obtain_holding]
    rfl
  config_obtain := by rw [obtain_holding]
  parse_obtain data := by
    rw [obtain_holding]
    rfl
  length_idle_le := by rwa [length_idle_holding]
  length_idle_obtain := by rw [obtain_holding, length_idle_holding, length_idle_holding]
  length_idle_release := (holding config maxIdle count).length_idle_release

end ParserPool

/-! ### Any number of calls -/

namespace Lending

open ParserPool (obtainNew releaseCounted holding)

variable {config : Config} {maxIdle : Nat} {pooled : Lending ParserPool} {counted : Lending Nat}

/-- The same parsers are lent, and as many wait in the pool as the number says. -/
structure Counts (config : Config) (maxIdle : Nat) (pooled : Lending ParserPool)
    (counted : Lending Nat) : Prop where
  pool_eq : pooled.pool = holding config maxIdle counted.pool
  count_le : counted.pool ≤ maxIdle
  lent_eq : pooled.lent = counted.lent
  /-- A parser that is lent may be in any state, but has the settings of the pool. -/
  config_eq : ∀ parser ∈ counted.lent, parser.config = config

/-- **What a call preserves.** A pool and a number answer a call alike, and the same parsers are
lent afterwards. -/
theorem Counts.run (h : Counts config maxIdle pooled counted) (call : PoolCall) :
    (call.run ParserPool.obtain ParserPool.release pooled).1 =
        (call.run (obtainNew config) (releaseCounted maxIdle) counted).1 ∧
      Counts config maxIdle (call.run ParserPool.obtain ParserPool.release pooled).2
        (call.run (obtainNew config) (releaseCounted maxIdle) counted).2 := by
  obtain ⟨_, lent⟩ := pooled
  obtain ⟨count, _⟩ := counted
  obtain ⟨hpool, hle, hlent, hconfig⟩ := h
  dsimp only at hpool hle hlent hconfig
  subst hpool hlent
  cases call with
  | obtain =>
    refine ⟨rfl, ?_⟩
    simp only [PoolCall.run, ParserPool.obtain_holding]
    refine ⟨rfl, Nat.le_trans (Nat.sub_le count 1) hle, rfl, ?_⟩
    intro parser hparser
    rcases List.mem_append.mp hparser with hlent | hnew
    · exact hconfig parser hlent
    · rw [List.mem_singleton.mp hnew]
      rfl
  | release slot =>
    simp only [PoolCall.run]
    cases hslot : lent[slot]? with
    | none => exact ⟨rfl, rfl, hle, rfl, hconfig⟩
    | some parser =>
      have hsame := hconfig parser (List.mem_of_getElem? hslot)
      refine ⟨rfl, ParserPool.release_holding hsame, ?_, rfl, ?_⟩
      · dsimp only
        rw [releaseCounted]
        split <;> omega
      · exact fun other hother => hconfig other (List.mem_of_mem_eraseIdx hother)
  | use call =>
    refine ⟨rfl, rfl, hle, rfl, ?_⟩
    refine ParserCall.forall_mem_run ?_ ?_ hconfig call
    · intro parser data hsame
      rw [Parser.config_parse, hsame]
    · exact fun _ hsame => hsame

theorem Counts.runAll (h : Counts config maxIdle pooled counted) (calls : List PoolCall) :
    (PoolCall.runAll ParserPool.obtain ParserPool.release pooled calls).1 =
        (PoolCall.runAll (obtainNew config) (releaseCounted maxIdle) counted calls).1 ∧
      Counts config maxIdle (PoolCall.runAll ParserPool.obtain ParserPool.release pooled calls).2
        (PoolCall.runAll (obtainNew config) (releaseCounted maxIdle) counted calls).2 := by
  induction calls generalizing pooled counted with
  | nil => exact ⟨rfl, h⟩
  | cons call calls ih =>
    obtain ⟨hanswer, hnext⟩ := h.run call
    obtain ⟨hanswers, hlast⟩ := ih hnext
    exact ⟨congrArg₂ List.cons hanswer hanswers, hlast⟩

end Lending

/-- **Nothing is carried over.** Start with an empty pool, take parsers from it, call them and
copies of them, and give them back. All answers, and the parsers that are lent, are those that one
gets if each parser that is taken is a new one. As many parsers wait as were counted; and whatever
was read before, the next parser to be taken is clear and reads its first input as a parser does
that was just made for it. -/
theorem ParserPool.runAll_eq_counted (config : Config) (maxIdle : Nat) (calls : List PoolCall) :
    let pooled := PoolCall.runAll obtain release ⟨{ config, maxIdle }, []⟩ calls
    let counted := PoolCall.runAll (obtainNew config) (releaseCounted maxIdle) ⟨0, []⟩ calls
    pooled.1 = counted.1 ∧ pooled.2.lent = counted.2.lent ∧
      pooled.2.pool.idle.length = counted.2.pool ∧
      pooled.2.pool.HandsOutNew config maxIdle := by
  intro pooled counted
  have hstart : Lending.Counts config maxIdle ⟨{ config, maxIdle }, []⟩ ⟨0, []⟩ :=
    ⟨rfl, Nat.zero_le maxIdle, rfl, fun _ hnone => nomatch hnone⟩
  obtain ⟨hanswers, hcounts⟩ := hstart.runAll calls
  refine ⟨hanswers, hcounts.lent_eq, ?_, ?_⟩
  · rw [hcounts.pool_eq, length_idle_holding]
  · rw [hcounts.pool_eq]
    exact handsOutNew_holding hcounts.count_le

end WebP
