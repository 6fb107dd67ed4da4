import WebP.Proofs.Playback.CheckedDrawing
import WebP.Proofs.Playback.FullFrame

/-!
# The range of what a compositor computes

A compositor computes with numbers of 32 and of 64 bits, and writes to places among the pixels of
its canvas. Whatever the size of the canvas, the sample size, the rectangles of the frames and the
sizes of the frames are, no number is too large for its bits, and no place lies outside the pixels:
a compositor that checks all of this does not fail, and draws what one without checks does.

## Main definitions

* `WebP.Compositor.run`: what a sequence of calls makes of a compositor.
* `WebP.Checked.run`: the same with checks.
* `WebP.DrawingInRange`: what is computed to draw and to copy images of a size is in range.

## Main results

* `WebP.Checked.run_eq`: a compositor with checks does not fail.
* `WebP.drawingInRange`: drawing and copying stay in range.
-/

namespace WebP

namespace Compositor

/-- What a compositor can be asked to do. -/
inductive Call where
  | compose (place : Placement) (decoded output : PixelBuffer)
  | reset

/-- The rectangle of a frame to draw is given by numbers of 32 bits. -/
def Call.IsWord : Call → Prop
  | .compose place _ _ => place.rect.IsWord
  | .reset => True

variable {π : Type} [BufferPool π]

/-- The compositor and the pool after a call. -/
def call (state : Compositor × π) : Call → Compositor × π
  | .compose place decoded output =>
    let composed := state.1.compose place decoded output state.2
    (composed.compositor, composed.pool)
  | .reset => state.1.reset state.2

/-- The compositor and the pool after a sequence of calls. -/
def run (calls : List Call) (state : Compositor × π) : Compositor × π := calls.foldl call state

variable {start compositor : Compositor} {size : Size} {sampleSize : Nat} {background : Pixel}

theorem Used.call (used : start.Used compositor) (pool : π) (call : Call) :
    start.Used (Compositor.call (compositor, pool) call).1 := by
  cases call with
  | compose place decoded output => exact used.compose place decoded output pool
  | reset => exact used.reset pool

theorem Used.size_eq (used : (new size sampleSize background).Used compositor) :
    compositor.size = downsampledSize size sampleSize :=
  congrArg Compositor.size used.emptied_eq

/-- The canvas of a compositor shows pixels of an image of its full size. -/
theorem Used.samples (used : (new size sampleSize background).Used compositor)
    (hsize : size.IsCanvas) (positive : 0 < sampleSize) :
    compositor.currentCanvas.Samples size sampleSize := by
  have hshape := (used.wellShaped (wellShaped_new size sampleSize background)).currentCanvas
  have hsample : compositor.sampleSize = sampleSize :=
    (congrArg Compositor.sampleSize used.emptied_eq).trans (Nat.max_eq_left positive)
  rw [used.size_eq, hsample] at hshape
  exact ⟨hshape, hsize, positive⟩

theorem lastIsWord_new (size : Size) (sampleSize : Nat) (background : Pixel) :
    (new size sampleSize background).currentCanvas.LastIsWord :=
  Canvas.lastIsWord_of_none rfl

/-- After a call the frame drawn last covers a rectangle of that call, or of one before it. -/
theorem lastIsWord_call (h : compositor.currentCanvas.LastIsWord) (pool : π) {call : Call}
    (hcall : call.IsWord) :
    (Compositor.call (compositor, pool) call).1.currentCanvas.LastIsWord := by
  cases call with
  | compose place decoded output =>
    intro rect disposal hsome
    cases hsome
    exact hcall
  | reset =>
    simp only [Compositor.call, Compositor.reset]
    cases hcanvas : compositor.canvas with
    | none => exact h
    | some canvas => exact Canvas.lastIsWord_of_none rfl

end Compositor

namespace Checked

variable {π : Type} [BufferPool π]

/-- The canvas, made in a scratch array if there is none. -/
def obtainCanvas (compositor : Compositor) (pool : π) : Option (Canvas × π) := do
  match compositor.canvas with
  | some canvas => return (canvas, pool)
  | none =>
    let length ← fits 64 (compositor.size.width * compositor.size.height)
    let (scratch, pool) := BufferPool.obtainScratch pool length
    return (.ofScratch compositor.size compositor.sampleSize scratch, pool)

/-- Draws a frame, and copies the canvas into `output`. -/
def compose (compositor : Compositor) (place : Placement) (decoded output : PixelBuffer)
    (pool : π) : Option (Compositor.Composed π) := do
  let (canvas, pool) ← obtainCanvas compositor pool
  let canvas ← addFrame canvas compositor.background place decoded
  return {
    compositor := { compositor with canvas := some canvas }
    pool
    output := canvas.copyInto output
    log := [.composited place] }

/-- The compositor and the pool after a call. -/
def call (state : Compositor × π) : Compositor.Call → Option (Compositor × π)
  | .compose place decoded output => do
    let composed ← compose state.1 place decoded output state.2
    return (composed.compositor, composed.pool)
  | .reset => return state.1.reset state.2

/-- The compositor and the pool after a sequence of calls. -/
def run (calls : List Compositor.Call) (state : Compositor × π) : Option (Compositor × π) :=
  calls.foldlM call state

variable {compositor : Compositor} {size : Size} {sampleSize : Nat} {background : Pixel}

theorem obtainCanvas_eq (h : compositor.size.IsCanvas) (pool : π) :
    obtainCanvas compositor pool = some (compositor.obtainCanvas pool) := by
  unfold obtainCanvas Compositor.obtainCanvas
  cases compositor.canvas with
  | some canvas => rfl
  | none =>
    have hlength : compositor.size.width * compositor.size.height < 2 ^ 64 := h.area_lt
    simp only [fits_of_lt hlength, Option.bind_eq_bind, Option.bind_some]
    rfl

/-- A frame is drawn without a failure. -/
theorem compose_eq (used : (Compositor.new size sampleSize background).Used compositor)
    (hsize : size.IsCanvas) (positive : 0 < sampleSize)
    (hlast : compositor.currentCanvas.LastIsWord) {place : Placement}
    (hrect : place.rect.IsWord) (decoded output : PixelBuffer) (pool : π) :
    compose compositor place decoded output pool =
      some (compositor.compose place decoded output pool) := by
  have hcanvas := compositor.obtainCanvas_fst pool
  have hframe := addFrame_eq (used.samples hsize positive) hlast compositor.background hrect
    decoded
  have hobtain := obtainCanvas_eq (used.size_eq ▸ hsize.downsampledSize sampleSize) pool
  simp only [compose, hobtain, hcanvas, hframe, Option.bind_eq_bind, Option.bind_some,
    Compositor.compose]
  rfl

theorem call_eq (used : (Compositor.new size sampleSize background).Used compositor)
    (hsize : size.IsCanvas) (positive : 0 < sampleSize)
    (hlast : compositor.currentCanvas.LastIsWord) {call : Compositor.Call}
    (hcall : call.IsWord) (pool : π) :
    Checked.call (compositor, pool) call = some (Compositor.call (compositor, pool) call) := by
  cases call with
  | compose place decoded output =>
    rw [Checked.call, compose_eq used hsize positive hlast hcall]
    rfl
  | reset => rfl

/-- **A run.** No call of it fails. -/
theorem run_eq (used : (Compositor.new size sampleSize background).Used compositor)
    (hsize : size.IsCanvas) (positive : 0 < sampleSize)
    (hlast : compositor.currentCanvas.LastIsWord) {calls : List Compositor.Call}
    (hcalls : ∀ call ∈ calls, call.IsWord) (pool : π) :
    run calls (compositor, pool) = some (Compositor.run calls (compositor, pool)) := by
  induction calls generalizing compositor pool with
  | nil => rfl
  | cons call calls ih =>
    have hcall := hcalls call List.mem_cons_self
    have hrest := ih (used.call pool call) (Compositor.lastIsWord_call hlast pool hcall)
      (fun other hother => hcalls other (List.mem_cons_of_mem _ hother))
      (Compositor.call (compositor, pool) call).2
    rw [run, List.foldlM_cons, call_eq used hsize positive hlast hcall]
    exact hrest

end Checked

/-- All that is computed to draw images of the size, made smaller by the sample size, and to copy
them, is in range. -/
structure DrawingInRange (size : Size) (sampleSize : Nat) : Prop where
  /-- A compositor that checks what it computes does not fail. -/
  run_eq : ∀ {π : Type} [BufferPool π] (background : Pixel) (calls : List Compositor.Call)
    (pool : π), (∀ call ∈ calls, call.IsWord) →
      Checked.run calls (.new size sampleSize background, pool) =
        some (Compositor.run calls (.new size sampleSize background, pool))
  /-- The canvas has a pixel for each cell of the smaller image. -/
  canvas_hasShape : ∀ {background : Pixel} {compositor : Compositor},
    (Compositor.new size sampleSize background).Used compositor →
      compositor.currentCanvas.HasShape (downsampledSize size sampleSize) sampleSize
  /-- On the canvas a rectangle may lie anywhere. -/
  canvas_inRange : ∀ {background : Pixel} {compositor : Compositor},
    (Compositor.new size sampleSize background).Used compositor →
      ∀ rect : Rect, compositor.currentCanvas.InRange rect
  /-- A copy in which no pixel may be missing does not fail. -/
  downsampleInto_eq : ∀ {source output : PixelBuffer} {layout layout' : ColorLayout},
    source.HasShape size.width size.height layout →
      output.HasShape (downsampledSize size sampleSize).width
        (downsampledSize size sampleSize).height layout' →
          Checked.downsampleInto source sampleSize output =
            some (source.downsampleInto sampleSize output)
  /-- Each pixel that is copied is there. -/
  exists_sampled : ∀ {source : PixelBuffer} {layout : ColorLayout},
    source.HasShape size.width size.height layout →
      ∀ x < (downsampledSize size sampleSize).width,
        ∀ y < (downsampledSize size sampleSize).height,
          x * sampleSize < 2 ^ 32 ∧ y * sampleSize < 2 ^ 32 ∧
            ∃ word, source.pixel? (x * sampleSize) (y * sampleSize) = some word

/-- **Drawing stays in range.** For every size of 32 bits that is not zero and every sample size
that is not zero, all that is computed to draw and to copy images is in range. -/
theorem drawingInRange {size : Size} {sampleSize : Nat} (hsize : size.IsCanvas)
    (positive : 0 < sampleSize) : DrawingInRange size sampleSize where
  run_eq _ _ pool hcalls :=
    Checked.run_eq .fresh hsize positive (Compositor.lastIsWord_new _ _ _) hcalls pool
  canvas_hasShape used := (used.samples hsize positive).toHasShape
  canvas_inRange used rect := (used.samples hsize positive).inRange rect
  downsampleInto_eq hsource houtput := Checked.downsampleInto_eq hsize hsource houtput
  exists_sampled hsource _ hx _ hy :=
    ⟨Nat.lt_trans (hsize.mul_lt_width hx) hsize.width_lt,
      Nat.lt_trans (hsize.mul_lt_height hy) hsize.height_lt,
      hsource.exists_pixel? (hsize.mul_lt_width hx) (hsize.mul_lt_height hy)⟩

/-! ### Rectangles at the end of the range -/

/-- A canvas as wide as 32 bits allow, and lower than the sample size. -/
def wideCanvas : Size := ⟨4294967295, 3⟩

/-- The first frame ends far outside the canvas and has fewer pixels than its rectangle; the
second one has none, and lies outside the canvas as a whole. -/
def outlyingCalls : List Compositor.Call :=
  [.compose ⟨0, ⟨2147483648, 0, 4294967295, 4294967295⟩, .background, .over⟩
      ⟨2, 1, .argb8888, #[0xff000001, 0xff000002]⟩ {},
    .compose ⟨1, ⟨4294967295, 4294967295, 4294967295, 4294967295⟩, .keep, .replace⟩ {} {}]

/-- The one cell that the first frame reaches is cleared when the second one is drawn. On a canvas
that was used before, a rectangle outside it is as good as any, and a smaller copy is made too. -/
theorem drawingInRange_wideCanvas :
    wideCanvas.IsCanvas ∧ 0 < 1073741824 ∧ (∀ call ∈ outlyingCalls, call.IsWord) ∧
      Checked.run outlyingCalls (.new wideCanvas 1073741824 7, ({} : HeapPool)) =
        some (Compositor.run outlyingCalls (.new wideCanvas 1073741824 7, ({} : HeapPool))) ∧
      (Compositor.run outlyingCalls (.new wideCanvas 1073741824 7,
        ({} : HeapPool))).1.currentCanvas.pixels = #[0, 0, 7] ∧
      usedCompositor.currentCanvas.InRange ⟨4294967295, 1, 4294967295, 4294967295⟩ ∧
      Checked.downsampleInto patchwork 2 (.new 2 1 .rgb565) =
        some (patchwork.downsampleInto 2 (.new 2 1 .rgb565)) := by
  have hwide : wideCanvas.IsCanvas := ⟨by decide, by decide, by decide, by decide⟩
  have hsize : (⟨5, 3⟩ : Size).IsCanvas := ⟨by decide, by decide, by decide, by decide⟩
  have hcalls : ∀ call ∈ outlyingCalls, call.IsWord := by
    intro call hcall
    rcases List.mem_cons.mp hcall with rfl | hcall
    · exact ⟨by decide, by decide, by decide, by decide⟩
    · cases List.mem_singleton.mp hcall
      exact ⟨by decide, by decide, by decide, by decide⟩
  have hdrawing : DrawingInRange wideCanvas 1073741824 := drawingInRange hwide (by decide)
  have hcopying : DrawingInRange ⟨5, 3⟩ 2 := drawingInRange hsize (by decide)
  have hused : (Compositor.new ⟨5, 3⟩ 2 7).Used usedCompositor := .compose .fresh _ _ _ _
  have hpatchwork : patchwork.HasShape 5 3 .argb8888 := ⟨rfl, rfl, rfl, by simp [patchwork]⟩
  refine ⟨hwide, by decide, hcalls, ?_, by decide +kernel, ?_, ?_⟩
  · exact hdrawing.run_eq 7 outlyingCalls ({} : HeapPool) hcalls
  · exact hcopying.canvas_inRange hused _
  · exact hcopying.downsampleInto_eq hpatchwork (PixelBuffer.hasShape_reshape _ _ _ _)

end WebP
