import WebP.Pixel.Buffer

/-!
# Pools of pixel buffers

A decoder takes the buffers it draws into from a pool and gives them back to it. Nothing is
promised about the contents of a buffer that is taken.

A scratch array may have been allocated with room for more words than it has. This room is left
out: whether an array is long enough is decided here by the words that it has, which is the least
room that there can be. That the choice makes no difference to its users is proved for every way to
choose.

## Main definitions

* `WebP.BufferPool`: what a pool can do.
* `WebP.HeapPool`: a pool that keeps a bounded number of released buffers of each kind.
* `WebP.takeAt`: one of several waiting things is taken.
-/

namespace WebP

/-- A source of pixel buffers and of scratch arrays. -/
class BufferPool (π : Type) where
  /-- Takes a buffer of the given shape and layout. -/
  obtain : (pool : π) → (width height : Nat) → ColorLayout → PixelBuffer × π
  /-- Gives a buffer back. -/
  release : (pool : π) → PixelBuffer → π
  /-- Takes a scratch array of the given length. -/
  obtainScratch : (pool : π) → (length : Nat) → Array UInt32 × π
  /-- Gives a scratch array back. -/
  releaseScratch : (pool : π) → Array UInt32 → π

/-- The list without what is at a place. The last one fills the gap. -/
def swapRemove {α : Type} (waiting : List α) (place : Nat) : List α :=
  match waiting.getLast? with
  | some last => (waiting.set place last).dropLast
  | none => []

/-- What is at a place, or else the last one, and the others. -/
def takeAt {α : Type} (waiting : List α) : (place : Option Nat) → Option (α × List α)
  | some place => waiting[place]?.map fun found => (found, swapRemove waiting place)
  | none => waiting.getLast?.map fun last => (last, waiting.dropLast)

/-- Released buffers that wait to be used again. -/
structure HeapPool where
  /-- The waiting pixel buffers, the one released last in front. -/
  buffers : List PixelBuffer := []
  /-- The waiting scratch arrays, the one released last at the end. -/
  scratch : List (Array UInt32) := []
  /-- How many of each kind may wait. -/
  maxIdle : Nat := 4
deriving DecidableEq, Repr, Inhabited

namespace HeapPool

/-- Takes the buffer released last, or an empty one, and gives it the shape asked for. -/
def obtain (pool : HeapPool) (width height : Nat) (layout : ColorLayout) :
    PixelBuffer × HeapPool :=
  match pool.buffers with
  | buffer :: buffers => (buffer.reshape width height layout, { pool with buffers })
  | [] => (.new width height layout, pool)

/-- Keeps a buffer, unless enough are waiting. -/
def release (pool : HeapPool) (buffer : PixelBuffer) : HeapPool :=
  if pool.buffers.length < pool.maxIdle then
    { pool with buffers := buffer :: pool.buffers }
  else
    pool

/-- Takes the first waiting scratch array that is long enough, or else the last one, or else an
empty one, and gives it the length asked for. -/
def obtainScratch (pool : HeapPool) (length : Nat) : Array UInt32 × HeapPool :=
  match takeAt pool.scratch (pool.scratch.findIdx? fun words => length ≤ words.size) with
  | some (words, scratch) => (resized words length, { pool with scratch })
  | none => (resized #[] length, pool)

/-- Keeps a scratch array, unless enough are waiting. -/
def releaseScratch (pool : HeapPool) (words : Array UInt32) : HeapPool :=
  if pool.scratch.length < pool.maxIdle then
    { pool with scratch := pool.scratch ++ [words] }
  else
    pool

instance : BufferPool HeapPool where
  obtain := obtain
  release := release
  obtainScratch := obtainScratch
  releaseScratch := releaseScratch

end HeapPool

end WebP
