import WebP.Proofs.Playback.Cells

/-!
# Frames that cover the canvas

A first frame that covers the whole canvas can be shown in two ways: drawn on a canvas that is
made smaller, or copied with every pixel at multiples of the sample size. The results are the same
if the sample size fits into the canvas. A canvas that is narrower or lower than the sample size
still has one cell in that direction, but the edges of the rectangle, divided by the sample size,
fall together, and nothing is drawn.

## Main definitions

* `WebP.Compositor.Used`: a compositor that frames were drawn with.

## Main results

* `WebP.Compositor.pixel?_output_compose_full`: what a full first frame shows.
* `WebP.Compositor.compose_full_eq_downsampleInto_iff`: when it shows what a smaller copy shows.
-/

namespace WebP

/-- The cells of a smaller canvas that a rectangle of its full size covers. -/
theorem Canvas.region_blank_ofSize_contains_iff {size : Size} {sampleSize x y : Nat} :
    ((blank (downsampledSize size sampleSize) sampleSize).region (.ofSize size)).Contains x y ↔
      x < size.width / sampleSize ∧ y < size.height / sampleSize := by
  have hle (length : Nat) : min (length / sampleSize) (max (length / max sampleSize 1) 1) =
      length / sampleSize := by
    rcases Nat.eq_zero_or_pos sampleSize with rfl | hpos
    · rw [Nat.div_zero, Nat.zero_min]
    · rw [Nat.max_eq_left hpos]
      exact Nat.min_eq_left (Nat.le_max_left _ _)
  simp only [Region.Contains, Canvas.region, blank, Rect.ofSize, Rect.right, Rect.bottom,
    downsampledSize, Nat.zero_add, Nat.zero_div, Nat.zero_min, Nat.zero_le, true_and, hle]

namespace Compositor

variable {start compositor : Compositor}

/-- The compositor was made as `start`, and frames may have been drawn with it and canvases given
back since then. -/
inductive Used (start : Compositor) : Compositor → Prop
  | fresh : Used start start
  | compose {π : Type} [BufferPool π] {compositor : Compositor} (used : Used start compositor)
      (place : Placement) (decoded output : PixelBuffer) (pool : π) :
      Used start (compositor.compose place decoded output pool).compositor
  | reset {π : Type} [BufferPool π] {compositor : Compositor} (used : Used start compositor)
      (pool : π) : Used start (compositor.reset pool).1

namespace Used

/-- Nothing but the canvas of a compositor changes with its use. -/
theorem emptied_eq (used : start.Used compositor) : compositor.emptied = start.emptied := by
  induction used with
  | fresh => rfl
  | compose used place decoded output pool ih =>
    rw [compositor_compose]
    exact ih
  | @reset π _ compositor used pool ih =>
    rw [← ih, Compositor.reset]
    cases compositor.canvas <;> rfl

theorem wellShaped (used : start.Used compositor) (h : start.WellShaped) :
    compositor.WellShaped := by
  induction used with
  | fresh => exact h
  | compose used place decoded output pool ih =>
    rw [compositor_compose]
    exact ih.draw place decoded
  | @reset π _ compositor used pool ih =>
    rw [Compositor.reset]
    cases hcanvas : compositor.canvas with
    | none => exact ih
    | some canvas => exact fun _ hnone => nomatch hnone

end Used

variable {π : Type} [BufferPool π] {canvas : Size} {sampleSize : Nat} {background : Pixel}
  {place : Placement} {decoded output target : PixelBuffer}

/-- A first frame is shown as on a blank canvas, whatever the compositor was used for. -/
theorem output_compose_first (used : start.Used compositor) (h : start.WellShaped)
    (first : place.index = 0) (decoded output : PixelBuffer) (pool : π) :
    (compositor.compose place decoded output pool).output =
      ((Canvas.blank start.size start.sampleSize).addFrame start.background place
        decoded).copyInto output := by
  have hcanvas := (used.wellShaped h).currentCanvas.addFrame_first compositor.background first
    decoded
  have hsame := used.emptied_eq
  obtain ⟨size, sampleSize, background, canvas⟩ := compositor
  obtain ⟨_, _, _, _⟩ := start
  cases hsame
  rw [output_compose]
  exact congrArg (·.copyInto output) hcanvas

/-- **A full first frame.** A cell whose index, in both directions, is less than the length of the
canvas divided by the sample size shows the pixel of the frame at its coordinates times the sample
size. A further cell, which there is only if the sample size is too large for the canvas, is
transparent. -/
theorem pixel?_output_compose_full (positive : 0 < sampleSize)
    (used : (new canvas sampleSize background).Used compositor) (first : place.index = 0)
    (full : place.rect = .ofSize canvas)
    (shape : decoded.HasShape canvas.width canvas.height .argb8888) (output : PixelBuffer)
    (pool : π) (x y : Nat) (hx : x < (downsampledSize canvas sampleSize).width)
    (hy : y < (downsampledSize canvas sampleSize).height) :
    (compositor.compose place decoded output pool).output.pixel? x y =
      some (output.layout.convert
        (if x < canvas.width / sampleSize ∧ y < canvas.height / sampleSize then
          (decoded.pixel? (x * sampleSize) (y * sampleSize)).getD Pixel.transparent
        else Pixel.transparent)) := by
  have hsample : (new canvas sampleSize background).sampleSize = sampleSize :=
    Nat.max_eq_left positive
  rw [output_compose_first used (wellShaped_new _ _ _) first, hsample, Canvas.pixel?_copyInto]
  change ((((Canvas.blank (downsampledSize canvas sampleSize) sampleSize).addFrame _ place
    decoded).image).pixel? x y).map _ = _
  rw [Canvas.pixel?_image_addFrame_blank _ _ _ hx hy, full, Option.map_some]
  simp only [Canvas.region_blank_ofSize_contains_iff]
  refine congrArg (some ∘ output.layout.convert) (ite_congr rfl (fun hcell => ?_) fun _ => rfl)
  -- the sample stays inside the frame, so it is not moved to the last row or column
  have hlt {cell length : Nat} (hcell : cell < length / sampleSize) :
      min (cell * sampleSize - 0) (length - 1) = cell * sampleSize := by
    have hmul := mul_lt_of_lt_div hcell
    omega
  rw [Canvas.sampled, Canvas.sample, Canvas.sample, shape.width_eq, shape.height_eq]
  change (decoded.pixel? (min (x * sampleSize - 0) _) (min (y * sampleSize - 0) _)).getD _ = _
  rw [hlt hcell.1, hlt hcell.2]

/-- **When drawing and copying agree.** A first frame that covers the canvas is shown as a smaller
copy of it exactly if the sample size fits into the canvas in both directions, or the smaller copy
is transparent all over. -/
theorem compose_full_eq_downsampleInto_iff (positive : 0 < sampleSize)
    (used : (new canvas sampleSize background).Used compositor) (first : place.index = 0)
    (full : place.rect = .ofSize canvas)
    (shape : decoded.HasShape canvas.width canvas.height .argb8888)
    (target_shape : target.HasShape (downsampledSize canvas sampleSize).width
      (downsampledSize canvas sampleSize).height output.layout) (pool : π) :
    (compositor.compose place decoded output pool).output =
        decoded.downsampleInto sampleSize target ↔
      (sampleSize ≤ canvas.width ∧ sampleSize ≤ canvas.height) ∨
        ∀ x < (downsampledSize canvas sampleSize).width,
          ∀ y < (downsampledSize canvas sampleSize).height,
            (decoded.downsampleInto sampleSize target).pixel? x y =
              some (output.layout.convert Pixel.transparent) := by
  have hshape : (compositor.compose place decoded output pool).output.HasShape
      (downsampledSize canvas sampleSize).width (downsampledSize canvas sampleSize).height
      output.layout := by
    rw [output_compose_first used (wellShaped_new _ _ _) first]
    exact ((Canvas.hasShape_blank _ _).addFrame _ place decoded).copyInto output
  have hdrawn := pixel?_output_compose_full positive used first full shape output pool
  by_cases hfits : sampleSize ≤ canvas.width ∧ sampleSize ≤ canvas.height
  · have hsize := downsampledSize_of_le positive hfits.1 hfits.2
    refine iff_of_true ?_ (.inl hfits)
    refine hshape.ext_pixel? (target_shape.downsampleInto decoded sampleSize) fun x hx y hy => ?_
    rw [hdrawn x y hx hy, PixelBuffer.pixel?_downsampleInto target_shape decoded sampleSize hx hy]
    rw [hsize] at hx hy
    rw [if_pos ⟨hx, hy⟩]
  · have hcell (x y : Nat) : ¬ (x < canvas.width / sampleSize ∧ y < canvas.height / sampleSize) :=
      fun h => hfits ⟨(Nat.div_pos_iff.mp (Nat.zero_lt_of_lt h.1)).2,
        (Nat.div_pos_iff.mp (Nat.zero_lt_of_lt h.2)).2⟩
    simp only [if_neg (hcell _ _)] at hdrawn
    rw [or_iff_right hfits]
    constructor
    · intro heq x hx y hy
      rw [← heq, hdrawn x y hx hy]
    · intro hall
      refine hshape.ext_pixel? (target_shape.downsampleInto decoded sampleSize)
        fun x hx y hy => ?_
      rw [hdrawn x y hx hy, hall x hx y hy]

end Compositor

/-! ### Frames on a canvas that is made smaller -/

/-- An image of five by three pixels, each of its own colour. -/
def patchwork : PixelBuffer :=
  ⟨5, 3, .argb8888, (Array.range 15).map fun i => UInt32.ofNat (0x80000000 + i)⟩

/-- A place that covers a canvas, in front of an animation. -/
def fullPlace (canvas : Size) : Placement := ⟨0, .ofSize canvas, .background, .over⟩

/-- A compositor for the image, made smaller by two, with which the image was drawn elsewhere. -/
def usedCompositor : Compositor :=
  ((Compositor.new ⟨5, 3⟩ 2 7).compose ⟨1, ⟨2, 0, 2, 2⟩, .background, .replace⟩ patchwork {}
    ({} : HeapPool)).compositor

/-- The image, drawn with a compositor that was used before, is shown as a copy that has every
second of its pixels. -/
theorem compose_patchwork_eq_downsampleInto :
    0 < 2 ∧ (Compositor.new ⟨5, 3⟩ 2 7).Used usedCompositor ∧
      patchwork.HasShape 5 3 .argb8888 ∧
      (usedCompositor.compose (fullPlace ⟨5, 3⟩) patchwork {} ({} : HeapPool)).output =
        patchwork.downsampleInto 2 (.new 2 1 .argb8888) := by
  have hused : (Compositor.new ⟨5, 3⟩ 2 7).Used usedCompositor := .compose .fresh _ _ _ _
  have hshape : patchwork.HasShape 5 3 .argb8888 := ⟨rfl, rfl, rfl, by simp [patchwork]⟩
  refine ⟨by decide, hused, hshape, ?_⟩
  exact (Compositor.compose_full_eq_downsampleInto_iff (by decide) hused rfl rfl hshape
    (PixelBuffer.hasShape_reshape _ _ _ _) _).mpr (.inl (by decide))

/-- Drawing and copying do not agree for all sizes: of a single opaque pixel, made smaller by two,
nothing is drawn. -/
theorem not_forall_compose_full_eq_downsampleInto :
    ¬ ∀ (canvas : Size) (sampleSize : Nat) (background : Pixel) (compositor : Compositor)
      (place : Placement) (decoded output target : PixelBuffer) (pool : HeapPool),
      0 < canvas.width → 0 < canvas.height → 0 < sampleSize →
      (Compositor.new canvas sampleSize background).Used compositor →
      place.index = 0 → place.rect = .ofSize canvas →
      decoded.HasShape canvas.width canvas.height .argb8888 →
      target.HasShape (downsampledSize canvas sampleSize).width
        (downsampledSize canvas sampleSize).height output.layout →
      (compositor.compose place decoded output pool).output =
        decoded.downsampleInto sampleSize target := by
  intro hall
  have hsame := hall ⟨1, 1⟩ 2 0 _ (fullPlace ⟨1, 1⟩) ⟨1, 1, .argb8888, #[0xffff0000]⟩ {}
    (.new 1 1 .argb8888) {} (by decide) (by decide) (by decide) .fresh rfl rfl
    ⟨rfl, rfl, rfl, rfl⟩ (PixelBuffer.hasShape_reshape _ _ _ _)
  exact absurd (congrArg PixelBuffer.pixels hsame) (by decide +kernel)

end WebP
