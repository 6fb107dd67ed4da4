import WebP.Playback.Compositor
import WebP.Proofs.Pixel.Shape

/-!
# Drawing without a pool

The pool decides in which array a canvas is made, and not what is drawn on it: a canvas starts out
transparent. So drawing a frame is a function on compositors alone. For the first frame of an
animation not even the canvas matters, since that frame starts on a transparent one.

## Main definitions

* `WebP.Canvas.blank`: the transparent canvas.
* `WebP.Compositor.draw`: a compositor with one more frame.
* `WebP.Compositor.WellShaped`: the canvas of the compositor, if there is one, is of its size.
* `WebP.Compositor.emptied`: a compositor before its first frame.

## Main results

* `WebP.Compositor.draw_first`: the first frame forgets what was drawn.
-/

namespace WebP

namespace Canvas

variable {canvas : Canvas} {size : Size} {sampleSize : Nat}

/-- The transparent canvas on which no frame has been drawn. -/
def blank (size : Size) (sampleSize : Nat) : Canvas where
  size := size
  sampleSize := sampleSize
  pixels := Array.replicate size.area Pixel.transparent

theorem ofScratch_eq_blank (size : Size) (sampleSize : Nat) (scratch : Array UInt32) :
    ofScratch size sampleSize scratch = blank size sampleSize := by
  simp only [ofScratch, blank, Array.map_const', size_resized]

/-- The canvas has this size and this sample size, and a pixel for each of its cells. -/
structure HasShape (canvas : Canvas) (size : Size) (sampleSize : Nat) : Prop where
  size_eq : canvas.size = size
  sampleSize_eq : canvas.sampleSize = sampleSize
  area_eq : canvas.pixels.size = size.area

theorem hasShape_blank (size : Size) (sampleSize : Nat) :
    (blank size sampleSize).HasShape size sampleSize :=
  ⟨rfl, rfl, Array.size_replicate⟩

namespace HasShape

theorem paint (h : canvas.HasShape size sampleSize) (region : Region)
    (change : Nat → Nat → Pixel → Pixel) :
    (canvas.paint region change).HasShape size sampleSize :=
  ⟨h.size_eq, h.sampleSize_eq, (size_paint canvas region change).trans h.area_eq⟩

/-- A canvas that is started afresh is blank. -/
theorem restart_eq (h : canvas.HasShape size sampleSize) :
    canvas.restart = blank size sampleSize := by
  simp only [restart, blank, Array.map_const', h.size_eq, h.sampleSize_eq, h.area_eq]

theorem restart (h : canvas.HasShape size sampleSize) :
    canvas.restart.HasShape size sampleSize := by
  rw [h.restart_eq]
  exact hasShape_blank size sampleSize

theorem prepare (h : canvas.HasShape size sampleSize) (background : Pixel) (place : Placement) :
    (canvas.prepare background place).HasShape size sampleSize := by
  have hstart : (if place.index = 0 then canvas.restart else canvas).HasShape size sampleSize := by
    split
    · exact h.restart
    · exact h
  simp only [Canvas.prepare]
  split
  · exact hstart.paint _ _
  · exact hstart.paint _ _
  · exact hstart

theorem addFrame (h : canvas.HasShape size sampleSize) (background : Pixel) (place : Placement)
    (decoded : PixelBuffer) :
    (canvas.addFrame background place decoded).HasShape size sampleSize := by
  have hdraw : ((canvas.prepare background place).draw place.rect place.blend decoded).HasShape
      size sampleSize := (h.prepare background place).paint _ _
  exact ⟨hdraw.size_eq, hdraw.sampleSize_eq, hdraw.area_eq⟩

/-- The first frame is drawn as on a blank canvas. -/
theorem addFrame_first (h : canvas.HasShape size sampleSize) (background : Pixel)
    {place : Placement} (first : place.index = 0) (decoded : PixelBuffer) :
    canvas.addFrame background place decoded =
      (blank size sampleSize).addFrame background place decoded := by
  simp only [Canvas.addFrame, Canvas.prepare, if_pos first, h.restart_eq,
    (hasShape_blank size sampleSize).restart_eq]

end HasShape

/-- A copy of the canvas depends on nothing but the layout of the buffer it is made into. -/
theorem copyInto_congr (canvas : Canvas) {first second : PixelBuffer}
    (layout : first.layout = second.layout) : canvas.copyInto first = canvas.copyInto second := by
  simp only [copyInto, layout]

end Canvas

namespace Compositor

/-- The canvas on which the next frame is drawn. -/
def currentCanvas (compositor : Compositor) : Canvas :=
  compositor.canvas.getD (.blank compositor.size compositor.sampleSize)

/-- The compositor with one more frame. -/
def draw (compositor : Compositor) (place : Placement) (decoded : PixelBuffer) : Compositor :=
  { compositor with
    canvas := some (compositor.currentCanvas.addFrame compositor.background place decoded) }

/-- The compositor as it was before its first frame. -/
def emptied (compositor : Compositor) : Compositor := { compositor with canvas := none }

/-- The canvas, if there is one, is of the size and the sample size of the compositor. -/
def WellShaped (compositor : Compositor) : Prop :=
  ∀ canvas ∈ compositor.canvas, canvas.HasShape compositor.size compositor.sampleSize

variable {compositor other : Compositor}

theorem wellShaped_new (canvas : Size) (sampleSize : Nat) (background : Pixel) :
    (new canvas sampleSize background).WellShaped :=
  fun _ hcanvas => nomatch hcanvas

theorem WellShaped.currentCanvas (h : compositor.WellShaped) :
    compositor.currentCanvas.HasShape compositor.size compositor.sampleSize := by
  unfold Compositor.currentCanvas
  cases hcanvas : compositor.canvas with
  | none => exact Canvas.hasShape_blank _ _
  | some canvas => exact h canvas hcanvas

theorem WellShaped.draw (h : compositor.WellShaped) (place : Placement) (decoded : PixelBuffer) :
    (compositor.draw place decoded).WellShaped := by
  rintro _ ⟨⟩
  exact h.currentCanvas.addFrame compositor.background place decoded

/-- Compositors that differ in their canvases only agree once the first frame is drawn. -/
theorem draw_first (h₁ : compositor.WellShaped) (h₂ : other.WellShaped)
    (same : compositor.emptied = other.emptied) {place : Placement} (first : place.index = 0)
    (decoded : PixelBuffer) : compositor.draw place decoded = other.draw place decoded := by
  obtain ⟨size, sampleSize, background, canvas₁⟩ := compositor
  obtain ⟨_, _, _, canvas₂⟩ := other
  cases same
  simp only [Compositor.draw, h₁.currentCanvas.addFrame_first background first decoded,
    h₂.currentCanvas.addFrame_first background first decoded]

section Pool

variable {π : Type} [BufferPool π]

theorem obtainCanvas_fst (compositor : Compositor) (pool : π) :
    (compositor.obtainCanvas pool).1 = compositor.currentCanvas := by
  unfold obtainCanvas currentCanvas
  cases compositor.canvas with
  | some canvas => rfl
  | none => exact Canvas.ofScratch_eq_blank _ _ _

@[simp] theorem compositor_compose (compositor : Compositor) (place : Placement)
    (decoded output : PixelBuffer) (pool : π) :
    (compositor.compose place decoded output pool).compositor = compositor.draw place decoded := by
  simp only [compose, draw, obtainCanvas_fst]

@[simp] theorem output_compose (compositor : Compositor) (place : Placement)
    (decoded output : PixelBuffer) (pool : π) :
    (compositor.compose place decoded output pool).output =
      (compositor.draw place decoded).currentCanvas.copyInto output := by
  simp only [compose, draw, currentCanvas, obtainCanvas_fst, Option.getD_some]

end Pool

end Compositor

end WebP
