import Mathlib.Data.List.Induction
import WebP.Proofs.Pixel.Coordinates

/-!
# A pool and the buffers in use

Buffers go back and forth between a pool and those who use them, and take on a new shape each time
they are handed out. However they are used, each of them has as many words as its shape says, so
that every pixel has a word of its own. Buffers and scratch arrays do not mix, and of neither kind
do more wait in the pool than may.

Which of the waiting scratch arrays is handed out makes no difference to this. It is left open here:
any place may be chosen, by the room that the arrays have or in another way, and the pool's own
choice is one of those that are possible.

## Main definitions

* `WebP.PixelBuffer.IsAddressed`: every pixel of the shape has a word of its own.
* `WebP.ScratchRule`: a way to choose among the waiting scratch arrays.
* `WebP.PoolUse`, `WebP.BufferCall`: a pool with what is in use, and what can be done with them.

## Main results

* `WebP.PixelBuffer.WellFormed.isAddressed`: enough words are all that it takes.
* `WebP.PoolUse.IsSound.call`: no call spoils a buffer or overfills the pool.
* `WebP.PoolUse.keepsShapes`: all ways to use a pool.
-/

namespace WebP

/-! ### Words and pixels -/

/-- An array holds the words of another one, cut or extended by zeros. -/
def HoldsWords (words old : Array UInt32) : Prop :=
  ∀ i < words.size, words[i]? = some (old[i]?.getD 0)

theorem holdsWords_resized (old : Array UInt32) (n : Nat) : HoldsWords (resized old n) old := by
  intro i hi
  rw [size_resized] at hi
  have hsize : (old.take n).size = min n old.size := by
    rw [Array.take_eq_extract, Array.size_extract, Nat.sub_zero]
  rw [resized]
  by_cases hold : i < old.size
  · rw [Array.getElem?_append_left (by omega), Array.take_eq_extract, Array.getElem?_extract,
      if_pos (by omega), Nat.zero_add, Array.getElem?_eq_getElem hold]
    rfl
  · rw [Array.getElem?_append_right (by omega), Array.getElem?_replicate, if_pos (by omega),
      Array.getElem?_eq_none (Nat.le_of_not_lt hold)]
    rfl

namespace PixelBuffer

variable {buffer : PixelBuffer}

/-- **Every pixel of the shape has a word of its own**, and there are no others. -/
structure IsAddressed (buffer : PixelBuffer) : Prop where
  size_eq : buffer.pixels.size = buffer.width * buffer.height
  isSome_pixel?_iff : ∀ x y, (buffer.pixel? x y).isSome ↔ x < buffer.width ∧ y < buffer.height
  pixel?_eq : ∀ {x y : Nat}, x < buffer.width → y < buffer.height →
    buffer.pixel? x y = buffer.pixels[y * buffer.width + x]?
  distinct : ∀ {x y x' y' : Nat}, x < buffer.width → x' < buffer.width →
    y * buffer.width + x = y' * buffer.width + x' → x = x' ∧ y = y'

theorem index_inj {x y x' y' : Nat} (hx : x < buffer.width) (hx' : x' < buffer.width)
    (h : buffer.index x y = buffer.index x' y') : x = x' ∧ y = y' := by
  have hmod := index_mod_width (y := y) hx
  have hdiv := index_div_width (y := y) hx
  rw [h] at hmod hdiv
  exact ⟨hmod.symm.trans (index_mod_width hx'), hdiv.symm.trans (index_div_width hx')⟩

/-- If there are as many words as the shape says, each pixel has its own. -/
theorem WellFormed.isAddressed (h : buffer.WellFormed) : buffer.IsAddressed where
  size_eq := h
  isSome_pixel?_iff x y := by
    constructor
    · intro hsome
      rw [pixel?] at hsome
      split at hsome
      · assumption
      · cases hsome
    · rintro ⟨hx, hy⟩
      have hshape : buffer.HasShape buffer.width buffer.height buffer.layout := ⟨rfl, rfl, rfl, h⟩
      obtain ⟨word, hword⟩ := hshape.exists_pixel? hx hy
      rw [hword]
      rfl
  pixel?_eq := pixel?_of_lt
  distinct := index_inj

end PixelBuffer

/-! ### Scratch arrays -/

/-- Something in a list changes places with something else that is put in front. -/
theorem cons_perm_cons_set {α : Type} {as : List α} {place : Nat} {found : α}
    (h : as[place]? = some found) (other : α) :
    (other :: as).Perm (found :: as.set place other) := by
  induction as generalizing place with
  | nil => cases h
  | cons a as ih =>
    cases place with
    | zero =>
      obtain rfl := Option.some.inj h
      exact .swap _ _ _
    | succ place => exact (List.Perm.swap _ _ _).trans ((ih h).cons a |>.trans (.swap _ _ _))

/-- The others are left where the last one fills the gap. -/
theorem perm_cons_swapRemove {α : Type} {as : List α} {place : Nat} {found : α}
    (h : as[place]? = some found) : as.Perm (found :: swapRemove as place) := by
  induction as using List.reverseRecOn with
  | nil => cases h
  | append_singleton front last =>
    rw [swapRemove, List.getLast?_concat]
    dsimp only
    rcases Nat.lt_or_ge place front.length with hlt | hge
    · rw [List.getElem?_append_left hlt] at h
      rw [List.set_append_left _ _ hlt, List.dropLast_concat]
      exact (List.perm_append_singleton last front).trans (cons_perm_cons_set h last)
    · -- the last one is itself taken
      have hplace : place = front.length := by
        have hlt := (List.getElem?_eq_some_iff.mp h).1
        rw [List.length_append, List.length_singleton] at hlt
        omega
      subst hplace
      rw [List.getElem?_concat_length] at h
      obtain rfl := Option.some.inj h
      rw [List.set_append_right _ _ (Nat.le_refl _), Nat.sub_self, List.set_cons_zero,
        List.dropLast_concat]
      exact List.perm_append_singleton last front

/-- What is taken, with the others, is all there was. -/
theorem perm_of_takeAt {α : Type} {as others : List α} {place : Option Nat} {found : α}
    (h : takeAt as place = some (found, others)) : as.Perm (found :: others) := by
  cases place with
  | some place =>
    obtain ⟨_, hfound, hpair⟩ := Option.map_eq_some_iff.mp h
    obtain ⟨rfl, rfl⟩ := Prod.mk.inj hpair
    exact perm_cons_swapRemove hfound
  | none =>
    obtain ⟨_, hlast, hpair⟩ := Option.map_eq_some_iff.mp h
    obtain ⟨rfl, rfl⟩ := Prod.mk.inj hpair
    obtain ⟨front, rfl⟩ := List.getLast?_eq_some_iff.mp hlast
    rw [List.dropLast_concat]
    exact List.perm_append_singleton _ front

/-- A way to take one of the waiting scratch arrays, or none of them, for a given length. -/
structure ScratchRule where
  take : (waiting : List (Array UInt32)) → (length : Nat) →
    Option (Array UInt32 × List (Array UInt32))
  /-- The others stay. -/
  perm_of_take : ∀ {waiting length words others},
    take waiting length = some (words, others) → waiting.Perm (words :: others)

namespace ScratchRule

/-- A place is chosen in any way, and if none is, the array released last is taken. -/
def atPlace (choose : (waiting : List (Array UInt32)) → (length : Nat) → Option Nat) :
    ScratchRule where
  take waiting length := takeAt waiting (choose waiting length)
  perm_of_take := perm_of_takeAt

/-- The first one that is long enough, or else the one released last. -/
def firstFit : ScratchRule :=
  .atPlace fun waiting length => waiting.findIdx? fun words => length ≤ words.size

end ScratchRule

namespace HeapPool

/-- Takes a waiting scratch array by a rule, or else an empty one, and gives it the length asked
for. -/
def obtainScratchBy (pool : HeapPool) (rule : ScratchRule) (length : Nat) :
    Array UInt32 × HeapPool :=
  match rule.take pool.scratch length with
  | some (words, scratch) => (resized words length, { pool with scratch })
  | none => (resized #[] length, pool)

/-- The pool's own choice is one of those that are possible. -/
theorem obtainScratchBy_firstFit (pool : HeapPool) (length : Nat) :
    pool.obtainScratchBy .firstFit length = pool.obtainScratch length :=
  rfl

end HeapPool

/-! ### Using a pool -/

/-- A pool, and the buffers and scratch arrays in use. -/
structure PoolUse where
  pool : HeapPool
  buffers : List PixelBuffer := []
  scratch : List (Array UInt32) := []

/-- What can be done with a pool and with what is in use. Buffers and arrays in use are named by
their place. -/
inductive BufferCall where
  | new (width height : Nat) (layout : ColorLayout)
  | reshape (place width height : Nat) (layout : ColorLayout)
  | fill (place : Nat) (word : UInt32)
  | write (place i : Nat) (word : UInt32)
  | obtain (width height : Nat) (layout : ColorLayout)
  | release (place : Nat)
  | newScratch (words : Array UInt32)
  | obtainScratch (rule : ScratchRule) (length : Nat)
  | writeScratch (place i : Nat) (word : UInt32)
  | releaseScratch (place : Nat)

/-- The call is about scratch arrays. -/
def BufferCall.IsOnScratch : BufferCall → Prop
  | newScratch _ | obtainScratch _ _ | writeScratch _ _ _ | releaseScratch _ => True
  | new _ _ _ | reshape _ _ _ _ | fill _ _ | write _ _ _ | obtain _ _ _ | release _ => False

namespace PoolUse

/-- An empty pool, and nothing in use. -/
def start (maxIdle : Nat) : PoolUse := { pool := { maxIdle } }

/-- The pool and what is in use behind a call. -/
def call (use : PoolUse) : BufferCall → PoolUse
  | .new width height layout => { use with buffers := .new width height layout :: use.buffers }
  | .reshape place width height layout =>
    { use with buffers := use.buffers.modify place (·.reshape width height layout) }
  | .fill place word => { use with buffers := use.buffers.modify place (·.fill word) }
  | .write place i word => { use with buffers := use.buffers.modify place (·.set i word) }
  | .obtain width height layout =>
    let (buffer, pool) := use.pool.obtain width height layout
    { use with pool, buffers := buffer :: use.buffers }
  | .release place =>
    match use.buffers[place]? with
    | some buffer =>
      { use with pool := use.pool.release buffer, buffers := use.buffers.eraseIdx place }
    | none => use
  | .newScratch words => { use with scratch := words :: use.scratch }
  | .obtainScratch rule length =>
    let (words, pool) := use.pool.obtainScratchBy rule length
    { use with pool, scratch := words :: use.scratch }
  | .writeScratch place i word =>
    { use with scratch := use.scratch.modify place (·.setIfInBounds i word) }
  | .releaseScratch place =>
    match use.scratch[place]? with
    | some words =>
      { use with pool := use.pool.releaseScratch words, scratch := use.scratch.eraseIdx place }
    | none => use

/-- Calls one after another. -/
def run (use : PoolUse) (calls : List BufferCall) : PoolUse := calls.foldl call use

/-- **What holds at all times.** Every buffer has a word for each of its pixels, and no more than
`maxIdle` of each kind wait. -/
structure IsSound (maxIdle : Nat) (use : PoolUse) : Prop where
  inUse : ∀ buffer ∈ use.buffers, buffer.IsAddressed
  waiting : ∀ buffer ∈ use.pool.buffers, buffer.IsAddressed
  maxIdle_eq : use.pool.maxIdle = maxIdle
  buffers_le : use.pool.buffers.length ≤ maxIdle
  scratch_le : use.pool.scratch.length ≤ maxIdle

/-- **What the next call does.** -/
structure CallsExactly (use : PoolUse) : Prop where
  new : ∀ width height layout, ∃ buffer : PixelBuffer,
    (use.call (.new width height layout)).buffers = buffer :: use.buffers ∧
      buffer.HasShape width height layout ∧ HoldsWords buffer.pixels #[]
  /-- A buffer that is handed out has the shape asked for, whatever the shape was before. -/
  obtain : ∀ width height layout, ∃ buffer : PixelBuffer,
    (use.call (.obtain width height layout)).buffers = buffer :: use.buffers ∧
      buffer.HasShape width height layout ∧
        HoldsWords buffer.pixels (use.pool.buffers.head?.getD {}).pixels
  reshape : ∀ {place : Nat} {old : PixelBuffer}, use.buffers[place]? = some old →
    ∀ width height layout, ∃ buffer : PixelBuffer,
      (use.call (.reshape place width height layout)).buffers = use.buffers.set place buffer ∧
        buffer.HasShape width height layout ∧ HoldsWords buffer.pixels old.pixels
  obtainScratch : ∀ rule length, ∃ words : Array UInt32,
    (use.call (.obtainScratch rule length)).scratch = words :: use.scratch ∧ words.size = length
  /-- One of the rules is that of the pool. -/
  firstFit : ∀ length,
    use.pool.obtainScratchBy .firstFit length = use.pool.obtainScratch length
  /-- The waiting arrays of one kind are not changed by calls that are about the other one. -/
  keeps_buffers : ∀ {c : BufferCall}, c.IsOnScratch → (use.call c).pool.buffers = use.pool.buffers
  keeps_scratch : ∀ {c : BufferCall}, ¬ c.IsOnScratch → (use.call c).pool.scratch = use.pool.scratch

variable {use : PoolUse} {maxIdle : Nat}

theorem keeps_buffers_call {c : BufferCall} (h : c.IsOnScratch) :
    (use.call c).pool.buffers = use.pool.buffers := by
  cases c with
  | new | reshape | fill | write | obtain | release => exact h.elim
  | newScratch | writeScratch => rfl
  | obtainScratch rule length =>
    rw [call, HeapPool.obtainScratchBy]
    cases rule.take use.pool.scratch length <;> rfl
  | releaseScratch place =>
    rw [call]
    cases use.scratch[place]? with
    | none => rfl
    | some words =>
      simp only [HeapPool.releaseScratch]
      split <;> rfl

theorem keeps_scratch_call {c : BufferCall} (h : ¬ c.IsOnScratch) :
    (use.call c).pool.scratch = use.pool.scratch := by
  cases c with
  | new | reshape | fill | write => rfl
  | obtain width height layout =>
    rw [call, HeapPool.obtain]
    cases use.pool.buffers <;> rfl
  | release place =>
    rw [call]
    cases use.buffers[place]? with
    | none => rfl
    | some buffer =>
      simp only [HeapPool.release]
      split <;> rfl
  | newScratch | writeScratch | obtainScratch | releaseScratch => exact absurd trivial h

theorem callsExactly (use : PoolUse) : use.CallsExactly where
  new width height layout :=
    ⟨_, rfl, PixelBuffer.hasShape_reshape _ width height layout, holdsWords_resized _ _⟩
  obtain width height layout := by
    rw [call, HeapPool.obtain]
    cases use.pool.buffers with
    | nil =>
      exact ⟨_, rfl, PixelBuffer.hasShape_reshape _ width height layout, holdsWords_resized _ _⟩
    | cons old waiting =>
      exact ⟨_, rfl, PixelBuffer.hasShape_reshape old width height layout, holdsWords_resized _ _⟩
  reshape {place old} hold width height layout := by
    refine ⟨old.reshape width height layout, ?_,
      PixelBuffer.hasShape_reshape old width height layout, holdsWords_resized _ _⟩
    rw [call, List.modify_eq_set, hold, Option.getD_some]
  obtainScratch rule length := by
    rw [call, HeapPool.obtainScratchBy]
    cases rule.take use.pool.scratch length with
    | none => exact ⟨_, rfl, size_resized _ _⟩
    | some taken => exact ⟨_, rfl, size_resized _ _⟩
  firstFit := use.pool.obtainScratchBy_firstFit
  keeps_buffers := keeps_buffers_call
  keeps_scratch := keeps_scratch_call

/-! ### What holds at all times -/

/-- What a change keeps is kept in all places of a list if one of them is changed. -/
theorem forall_mem_modify {α : Type} {p : α → Prop} {change : α → α}
    (hchange : ∀ a, p a → p (change a)) {as : List α} (h : ∀ a ∈ as, p a) (place : Nat) :
    ∀ a ∈ as.modify place change, p a := by
  induction as generalizing place with
  | nil => cases place <;> exact h
  | cons a as ih =>
    obtain ⟨ha, has⟩ := List.forall_mem_cons.mp h
    cases place with
    | zero => exact List.forall_mem_cons.mpr ⟨hchange a ha, has⟩
    | succ place => exact List.forall_mem_cons.mpr ⟨ha, ih has place⟩

/-- Changing one of the buffers in use. -/
theorem IsSound.modify (h : use.IsSound maxIdle) {change : PixelBuffer → PixelBuffer}
    (hchange : ∀ {buffer : PixelBuffer}, buffer.WellFormed → (change buffer).WellFormed)
    (place : Nat) :
    ({ use with buffers := use.buffers.modify place change } : PoolUse).IsSound maxIdle :=
  { h with
    inUse := forall_mem_modify
      (fun _ hbuffer => (hchange hbuffer.size_eq).isAddressed) h.inUse place }

/-- **One call.** It spoils no buffer and does not overfill the pool. -/
theorem IsSound.call (h : use.IsSound maxIdle) (c : BufferCall) : (use.call c).IsSound maxIdle := by
  cases c with
  | new width height layout =>
    exact { h with
      inUse := List.forall_mem_cons.mpr
        ⟨(PixelBuffer.WellFormed.reshape _ width height layout).isAddressed, h.inUse⟩ }
  | reshape place width height layout =>
    exact h.modify (fun _ => .reshape _ width height layout) place
  | fill place word => exact h.modify (·.fill word) place
  | write place i word => exact h.modify (·.set i word) place
  | obtain width height layout =>
    have hnew (old : PixelBuffer) : (old.reshape width height layout).IsAddressed :=
      (PixelBuffer.WellFormed.reshape old width height layout).isAddressed
    rw [PoolUse.call, HeapPool.obtain]
    cases hwaiting : use.pool.buffers with
    | nil => exact { h with inUse := List.forall_mem_cons.mpr ⟨hnew {}, h.inUse⟩ }
    | cons old waiting =>
      have hall := h.waiting
      have hle := h.buffers_le
      rw [hwaiting] at hall hle
      exact { h with
        inUse := List.forall_mem_cons.mpr ⟨hnew old, h.inUse⟩
        waiting := (List.forall_mem_cons.mp hall).2
        buffers_le := Nat.le_of_succ_le hle }
  | release place =>
    rw [PoolUse.call]
    cases hplace : use.buffers[place]? with
    | none => exact h
    | some buffer =>
      have hinUse : ∀ other ∈ use.buffers.eraseIdx place, other.IsAddressed :=
        fun other hother => h.inUse other (List.mem_of_mem_eraseIdx hother)
      simp only [HeapPool.release]
      split
      case isTrue hroom =>
        exact { h with
          inUse := hinUse
          waiting := List.forall_mem_cons.mpr
            ⟨h.inUse buffer (List.mem_of_getElem? hplace), h.waiting⟩
          buffers_le := h.maxIdle_eq ▸ hroom }
      case isFalse => exact { h with inUse := hinUse }
  | newScratch words => exact { h with }
  | obtainScratch rule length =>
    rw [PoolUse.call, HeapPool.obtainScratchBy]
    cases htake : rule.take use.pool.scratch length with
    | none => exact { h with }
    | some taken =>
      have hle := h.scratch_le
      rw [(rule.perm_of_take htake).length_eq] at hle
      have hothers : taken.2.length ≤ maxIdle := Nat.le_of_succ_le hle
      exact { h with scratch_le := hothers }
  | writeScratch place i word => exact { h with }
  | releaseScratch place =>
    rw [PoolUse.call]
    cases use.scratch[place]? with
    | none => exact h
    | some words =>
      simp only [HeapPool.releaseScratch]
      split
      case isTrue hroom =>
        have hmore : (use.pool.scratch ++ [words]).length ≤ maxIdle := by
          rw [List.length_append, List.length_singleton]
          exact h.maxIdle_eq ▸ hroom
        exact { h with scratch_le := hmore }
      case isFalse => exact { h with }

theorem isSound_start (maxIdle : Nat) : (start maxIdle).IsSound maxIdle where
  inUse := nofun
  waiting := nofun
  maxIdle_eq := rfl
  buffers_le := Nat.zero_le _
  scratch_le := Nat.zero_le _

/-- Calls one after another keep what holds. -/
theorem IsSound.run (h : use.IsSound maxIdle) (calls : List BufferCall) :
    (use.run calls).IsSound maxIdle := by
  induction calls generalizing use with
  | nil => exact h
  | cons c calls ih => exact ih (h.call c)

/-- **All ways to use a pool.** At all times every buffer has exactly the pixels that its shape
promises, and the next call does what it is to do. -/
theorem keepsShapes (maxIdle : Nat) (calls : List BufferCall) :
    ((start maxIdle).run calls).IsSound maxIdle ∧ ((start maxIdle).run calls).CallsExactly :=
  ⟨(isSound_start maxIdle).run calls, callsExactly _⟩

example : ((start 1).run [.new 1 3 .argb8888, .write 0 2 7, .fill 0 9, .release 0, .new 5 5 .rgb565,
    .release 0, .obtain 2 2 .argb8888]).buffers = [⟨2, 2, .argb8888, #[9, 9, 9, 0]⟩] := by
  decide +kernel

end PoolUse

end WebP
