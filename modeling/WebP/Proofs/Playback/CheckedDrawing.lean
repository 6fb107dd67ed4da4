import Mathlib.Order.MinMax
import WebP.Proofs.Pixel.Checked
import WebP.Proofs.Playback.Cells

/-!
# Drawing on a canvas, with checks

The cells that a rectangle covers are cleared row by row, and drawn on one by one. Both are done
here with checks of all that is computed on the way: the edges of the rectangle, the coordinates of
the pixel that is sampled, and the place of each row and of each cell. The rectangle may lie
anywhere, also outside the canvas, and the frame may have any size. Nothing fails, and the canvas
is the one that painting yields.

## Main definitions

* `WebP.Rect.IsWord`: a rectangle given by numbers of 32 bits.
* `WebP.Canvas.Samples`: a canvas whose cells show pixels of an image.
* `WebP.Canvas.InRange`: what is computed for a rectangle is in range.
* `WebP.Checked.region`, `WebP.Checked.fill`, `WebP.Checked.draw`, `WebP.Checked.addFrame`: what
  is done on a canvas, with checks.

## Main results

* `WebP.Canvas.Samples.inRange`: a rectangle may lie anywhere.
* `WebP.Checked.addFrame_eq`: a frame is drawn without a failure.
-/

namespace WebP

/-- The rectangle is given by numbers of 32 bits. -/
structure Rect.IsWord (rect : Rect) : Prop where
  x_lt : rect.x < 2 ^ 32
  y_lt : rect.y < 2 ^ 32
  width_lt : rect.width < 2 ^ 32
  height_lt : rect.height < 2 ^ 32

namespace Region

/-- The rows from the top edge on in front of the bottom edge. -/
def rows (region : Region) : List Nat := List.range' region.top (region.bottom - region.top)

/-- The columns from the left edge on in front of the right edge. -/
def columns (region : Region) : List Nat := List.range' region.left (region.right - region.left)

variable {region : Region} {x y : Nat}

theorem mem_rows : y ∈ region.rows ↔ region.top ≤ y ∧ y < region.bottom := by
  rw [rows, List.mem_range'_1]
  omega

theorem mem_columns : x ∈ region.columns ↔ region.left ≤ x ∧ x < region.right := by
  rw [columns, List.mem_range'_1]
  omega

theorem nodup_rows (region : Region) : region.rows.Nodup := List.nodup_range'

theorem nodup_columns (region : Region) : region.columns.Nodup := List.nodup_range'

/-- The word at `i` lies in the row `y` of the region, if a row has `width` words. -/
def InRow (region : Region) (width y i : Nat) : Prop :=
  y * width + region.left ≤ i ∧ i < y * width + region.right

instance (region : Region) (width y : Nat) : DecidablePred (region.InRow width y) :=
  fun _ => inferInstanceAs (Decidable (_ ∧ _))

variable {width i : Nat}

theorem inRow_iff (hright : region.right ≤ width) :
    region.InRow width y i ↔
      i / width = y ∧ region.left ≤ i % width ∧ i % width < region.right := by
  have hdiv := Nat.div_add_mod' i width
  rw [InRow]
  constructor
  · rintro ⟨hle, hlt⟩
    have hy : i / width = y := by
      -- the region ends in front of the next row of the canvas
      refine Nat.div_eq_of_lt_le (Nat.le_trans (Nat.le_add_right _ _) hle) ?_
      rw [Nat.succ_mul]
      omega
    rw [hy] at hdiv
    exact ⟨hy, by omega, by omega⟩
  · rintro ⟨rfl, hle, hlt⟩
    omega

/-- The rows of a region make up the region. -/
theorem exists_inRow_iff (hright : region.right ≤ width) :
    (∃ y ∈ region.rows, region.InRow width y i) ↔ region.Contains (i % width) (i / width) := by
  simp only [inRow_iff hright, mem_rows, Contains]
  constructor
  · rintro ⟨y, ⟨htop, hbottom⟩, rfl, hleft, hlt⟩
    exact ⟨hleft, hlt, htop, hbottom⟩
  · rintro ⟨hleft, hlt, htop, hbottom⟩
    exact ⟨_, ⟨htop, hbottom⟩, rfl, hleft, hlt⟩

/-- The cells of a row make up the row. -/
theorem exists_cell_iff : (∃ x ∈ region.columns, i = y * width + x) ↔ region.InRow width y i := by
  simp only [mem_columns, InRow]
  constructor
  · rintro ⟨x, hx, rfl⟩
    omega
  · rintro ⟨hle, hlt⟩
    exact ⟨i - y * width, by omega, by omega⟩

end Region

/-! ### What is computed for a rectangle -/

namespace Canvas

/-- The cells of the canvas show pixels of an image: those at multiples of the sample size. -/
structure Samples (canvas : Canvas) (size : Size) (sampleSize : Nat) : Prop
    extends canvas.HasShape (downsampledSize size sampleSize) sampleSize where
  isCanvas : size.IsCanvas
  positive : 0 < sampleSize

/-- The frame drawn last covered a rectangle given by numbers of 32 bits. -/
def LastIsWord (canvas : Canvas) : Prop :=
  ∀ rect disposal, canvas.previous = some (rect, disposal) → rect.IsWord

/-- All that is computed to fill a rectangle and to draw into it is in range. -/
structure InRange (canvas : Canvas) (rect : Rect) : Prop where
  left_le_right : (canvas.region rect).left ≤ (canvas.region rect).right
  right_le_width : (canvas.region rect).right ≤ canvas.size.width
  top_le_bottom : (canvas.region rect).top ≤ (canvas.region rect).bottom
  bottom_le_height : (canvas.region rect).bottom ≤ canvas.size.height
  /-- The part of a row that is filled is a slice of the pixels. -/
  row_le : ∀ y ∈ (canvas.region rect).rows,
    y * canvas.size.width + (canvas.region rect).left ≤
        y * canvas.size.width + (canvas.region rect).right ∧
      y * canvas.size.width + (canvas.region rect).right ≤ canvas.pixels.size
  /-- The place of a cell that is drawn on lies among the pixels. -/
  index_lt : ∀ y ∈ (canvas.region rect).rows, ∀ x ∈ (canvas.region rect).columns,
    y * canvas.size.width + x < canvas.pixels.size
  column_lt : ∀ x ∈ (canvas.region rect).columns, x * canvas.sampleSize < 2 ^ 32
  row_lt : ∀ y ∈ (canvas.region rect).rows, y * canvas.sampleSize < 2 ^ 32

theorem lastIsWord_of_none {canvas : Canvas} (none : canvas.previous = none) :
    canvas.LastIsWord := by
  intro rect disposal hsome
  rw [none] at hsome
  cases hsome

theorem left_le_right (canvas : Canvas) (rect : Rect) :
    (canvas.region rect).left ≤ (canvas.region rect).right :=
  min_le_min_right _ (Nat.div_le_div_right (Nat.le_add_right _ _))

theorem top_le_bottom (canvas : Canvas) (rect : Rect) :
    (canvas.region rect).top ≤ (canvas.region rect).bottom :=
  min_le_min_right _ (Nat.div_le_div_right (Nat.le_add_right _ _))

theorem right_le_width (canvas : Canvas) (rect : Rect) :
    (canvas.region rect).right ≤ canvas.size.width := Nat.min_le_right _ _

theorem bottom_le_height (canvas : Canvas) (rect : Rect) :
    (canvas.region rect).bottom ≤ canvas.size.height := Nat.min_le_right _ _

/-- Drawing paints what the pixels of the frame and those below them make together. -/
theorem draw_eq_paint (canvas : Canvas) (rect : Rect) (blend : BlendMode)
    (decoded : PixelBuffer) :
    canvas.draw rect blend decoded =
      canvas.paint (canvas.region rect) fun x y =>
        blend.merge (canvas.sampled rect decoded x y) := by
  cases blend with
  | «over» => rfl
  | replace => rfl

variable {canvas : Canvas} {size : Size} {sampleSize x y : Nat} {rect : Rect}

theorem lt_height_of_mem_rows (hy : y ∈ (canvas.region rect).rows) : y < canvas.size.height :=
  Nat.lt_of_lt_of_le (Region.mem_rows.mp hy).2 (canvas.bottom_le_height rect)

theorem lt_width_of_mem_columns (hx : x ∈ (canvas.region rect).columns) :
    x < canvas.size.width :=
  Nat.lt_of_lt_of_le (Region.mem_columns.mp hx).2 (canvas.right_le_width rect)

namespace Samples

theorem isCanvas_size (h : canvas.Samples size sampleSize) : canvas.size.IsCanvas := by
  rw [h.size_eq]
  exact h.isCanvas.downsampledSize sampleSize

theorem column_lt (h : canvas.Samples size sampleSize) (hx : x < canvas.size.width) :
    x * canvas.sampleSize < 2 ^ 32 := by
  rw [h.size_eq] at hx
  rw [h.sampleSize_eq]
  exact Nat.lt_trans (h.isCanvas.mul_lt_width hx) h.isCanvas.width_lt

theorem row_lt (h : canvas.Samples size sampleSize) (hy : y < canvas.size.height) :
    y * canvas.sampleSize < 2 ^ 32 := by
  rw [h.size_eq] at hy
  rw [h.sampleSize_eq]
  exact Nat.lt_trans (h.isCanvas.mul_lt_height hy) h.isCanvas.height_lt

theorem size_pixels (h : canvas.Samples size sampleSize) :
    canvas.pixels.size = canvas.size.height * canvas.size.width := by
  rw [h.area_eq, h.size_eq, Size.area, Nat.mul_comm]

/-- A row of the canvas does not reach beyond its pixels. -/
theorem index_le (h : canvas.Samples size sampleSize) (hx : x ≤ canvas.size.width)
    (hy : y < canvas.size.height) : y * canvas.size.width + x ≤ canvas.pixels.size := by
  calc y * canvas.size.width + x ≤ y * canvas.size.width + canvas.size.width :=
        Nat.add_le_add_left hx _
    _ = (y + 1) * canvas.size.width := (Nat.succ_mul y _).symm
    _ ≤ canvas.size.height * canvas.size.width := Nat.mul_le_mul_right _ hy
    _ = canvas.pixels.size := h.size_pixels.symm

theorem index_lt (h : canvas.Samples size sampleSize) (hx : x < canvas.size.width)
    (hy : y < canvas.size.height) : y * canvas.size.width + x < canvas.pixels.size :=
  Nat.lt_of_lt_of_le (Nat.add_lt_add_left hx _) (h.index_le (Nat.le_refl _) hy)

theorem size_pixels_lt (h : canvas.Samples size sampleSize) : canvas.pixels.size < 2 ^ 64 := by
  rw [h.area_eq]
  exact (h.isCanvas.downsampledSize sampleSize).area_lt

/-- Wherever the rectangle lies, all that is computed for it is in range. -/
theorem inRange (h : canvas.Samples size sampleSize) (rect : Rect) : canvas.InRange rect where
  left_le_right := canvas.left_le_right rect
  right_le_width := canvas.right_le_width rect
  top_le_bottom := canvas.top_le_bottom rect
  bottom_le_height := canvas.bottom_le_height rect
  row_le _ hy := ⟨Nat.add_le_add_left (canvas.left_le_right rect) _,
    h.index_le (canvas.right_le_width rect) (lt_height_of_mem_rows hy)⟩
  index_lt _ hy _ hx := h.index_lt (lt_width_of_mem_columns hx) (lt_height_of_mem_rows hy)
  column_lt _ hx := h.column_lt (lt_width_of_mem_columns hx)
  row_lt _ hy := h.row_lt (lt_height_of_mem_rows hy)

theorem restart (h : canvas.Samples size sampleSize) : canvas.restart.Samples size sampleSize :=
  ⟨h.toHasShape.restart, h.isCanvas, h.positive⟩

theorem prepare (h : canvas.Samples size sampleSize) (background : Pixel) (place : Placement) :
    (canvas.prepare background place).Samples size sampleSize :=
  ⟨h.toHasShape.prepare background place, h.isCanvas, h.positive⟩

end Samples

end Canvas

namespace Checked

/-! ### Drawing with checks -/

/-- The cell at which an edge lies, or the last one that there is. -/
def cell (canvas : Canvas) (edge limit : Nat) : Option Nat := do
  fits 32 (min (← div (← fits 64 edge) canvas.sampleSize) limit)

/-- The cells that a rectangle covers. -/
def region (canvas : Canvas) (rect : Rect) : Option Region := do
  return {
    left := ← cell canvas rect.x canvas.size.width
    top := ← cell canvas rect.y canvas.size.height
    right := ← cell canvas rect.right canvas.size.width
    bottom := ← cell canvas rect.bottom canvas.size.height }

/-- The place of a cell among the words of the canvas. -/
def place (canvas : Canvas) (x y : Nat) : Option Nat := do
  fits 64 ((← fits 64 (y * canvas.size.width)) + x)

/-- Gives the cells of a row one colour. -/
def fillRow (canvas : Canvas) (region : Region) (color : Pixel) (pixels : Array Pixel) (y : Nat) :
    Option (Array Pixel) := do
  fillSlice pixels (← place canvas region.left y) (← place canvas region.right y) color

/-- Gives all cells of a rectangle one colour, row by row. -/
def fill (canvas : Canvas) (rect : Rect) (color : Pixel) : Option Canvas := do
  let region ← region canvas rect
  let pixels ← region.rows.foldlM (fillRow canvas region color) canvas.pixels
  return { canvas with pixels }

/-- The coordinate in a frame of what a cell shows. -/
def sample (canvas : Canvas) (cell start length : Nat) : Option Nat := do
  return min ((← fits 32 (cell * canvas.sampleSize)) - start) (length - 1)

/-- Draws the cell at `x`, `y`, which shows the row `sourceY` of the frame. -/
def drawCell (canvas : Canvas) (rect : Rect) (blend : BlendMode) (decoded : PixelBuffer)
    (y sourceY : Nat) (pixels : Array Pixel) (x : Nat) : Option (Array Pixel) := do
  let sourceX ← sample canvas x rect.x decoded.width
  let source := (decoded.pixel? sourceX sourceY).getD Pixel.transparent
  modify pixels (← place canvas x y) (blend.merge source)

/-- Draws the cells of a row. -/
def drawRow (canvas : Canvas) (region : Region) (rect : Rect) (blend : BlendMode)
    (decoded : PixelBuffer) (pixels : Array Pixel) (y : Nat) : Option (Array Pixel) := do
  let sourceY ← sample canvas y rect.y decoded.height
  region.columns.foldlM (drawCell canvas rect blend decoded y sourceY) pixels

/-- Draws the pixels of a frame into its rectangle, row by row. -/
def draw (canvas : Canvas) (rect : Rect) (blend : BlendMode) (decoded : PixelBuffer) :
    Option Canvas := do
  let region ← region canvas rect
  let pixels ← region.rows.foldlM (drawRow canvas region rect blend decoded) canvas.pixels
  return { canvas with pixels }

/-- The canvas on which a frame is drawn. -/
def prepare (canvas : Canvas) (background : Pixel) (place : Placement) : Option Canvas :=
  let canvas := if place.index = 0 then canvas.restart else canvas
  match canvas.previous, place.blend with
  | some (rect, .background), _ => fill canvas rect background
  | _, .replace => fill canvas place.rect Pixel.transparent
  | _, .over => return canvas

/-- The canvas with one more frame. -/
def addFrame (canvas : Canvas) (background : Pixel) (place : Placement) (decoded : PixelBuffer) :
    Option Canvas := do
  let prepared ← prepare canvas background place
  let drawn ← draw prepared place.rect place.blend decoded
  return { drawn with previous := some (place.rect, place.dispose) }

/-! ### Nothing fails -/

variable {canvas : Canvas} {size : Size} {sampleSize x y : Nat} {rect : Rect}

theorem cell_eq {edge limit : Nat} (positive : 0 < canvas.sampleSize) (hedge : edge < 2 ^ 64)
    (hlimit : limit < 2 ^ 32) :
    cell canvas edge limit = some (min (edge / canvas.sampleSize) limit) := by
  simp only [cell, fits_of_lt hedge, div_of_pos positive, Option.bind_eq_bind, Option.bind_some]
  exact fits_of_lt (Nat.lt_of_le_of_lt (Nat.min_le_right _ _) hlimit)

theorem region_eq (h : canvas.Samples size sampleSize) (hrect : rect.IsWord) :
    region canvas rect = some (canvas.region rect) := by
  have hpos : 0 < canvas.sampleSize := h.sampleSize_eq.symm ▸ h.positive
  have hsize := h.isCanvas_size
  obtain ⟨hx, hy, hwidth, hheight⟩ := hrect
  have hright : rect.right < 2 ^ 64 := by
    rw [Rect.right]
    omega
  have hbottom : rect.bottom < 2 ^ 64 := by
    rw [Rect.bottom]
    omega
  simp only [region, cell_eq hpos (Nat.lt_trans hx (by decide)) hsize.width_lt,
    cell_eq hpos (Nat.lt_trans hy (by decide)) hsize.height_lt,
    cell_eq hpos hright hsize.width_lt, cell_eq hpos hbottom hsize.height_lt,
    Option.bind_eq_bind, Option.bind_some]
  rfl

theorem place_eq (h : canvas.Samples size sampleSize) (hx : x ≤ canvas.size.width)
    (hy : y < canvas.size.height) : place canvas x y = some (y * canvas.size.width + x) := by
  have hindex := Nat.lt_of_le_of_lt (h.index_le hx hy) h.size_pixels_lt
  have hrow := Nat.lt_of_le_of_lt (Nat.le_add_right _ x) hindex
  rw [place, fits_of_lt hrow]
  exact fits_of_lt hindex

/-- Rows that are changed without a failure are painted. -/
theorem foldlM_rows_eq_paint (change : Nat → Nat → Pixel → Pixel)
    {step : Array Pixel → Nat → Option (Array Pixel)}
    (hstep : ∀ y ∈ (canvas.region rect).rows, ∀ pixels : Array Pixel,
      pixels.size = canvas.pixels.size → step pixels y = some (changeAt
        ((canvas.region rect).InRow canvas.size.width y)
        (fun i => change (i % canvas.size.width) (i / canvas.size.width)) pixels)) :
    (canvas.region rect).rows.foldlM step canvas.pixels =
      some (canvas.paint (canvas.region rect) change).pixels := by
  have hright := canvas.right_le_width rect
  refine (foldlM_eq_changeAt _ (· / canvas.size.width) hstep
    (fun _ _ _ hi => ((Region.inRow_iff hright).mp hi).1) (canvas.region rect).nodup_rows
    rfl).trans ?_
  exact congrArg some (changeAt_congr (fun _ _ => Region.exists_inRow_iff hright) fun _ _ _ => rfl)

theorem fillRow_eq (h : canvas.Samples size sampleSize) (color : Pixel)
    (hy : y ∈ (canvas.region rect).rows) {pixels : Array Pixel}
    (hsize : pixels.size = canvas.pixels.size) :
    fillRow canvas (canvas.region rect) color pixels y =
      some (changeAt ((canvas.region rect).InRow canvas.size.width y) (fun _ _ => color)
        pixels) := by
  have hrange := h.inRange rect
  have hrow := Canvas.lt_height_of_mem_rows hy
  have hleft := Nat.le_trans hrange.left_le_right hrange.right_le_width
  obtain ⟨hle, hstop⟩ := hrange.row_le y hy
  rw [fillRow, place_eq h hleft hrow, place_eq h hrange.right_le_width hrow]
  exact fillSlice_eq_changeAt hle (hsize ▸ hstop) color

/-- A rectangle is filled without a failure. -/
theorem fill_eq (h : canvas.Samples size sampleSize) (hrect : rect.IsWord) (color : Pixel) :
    fill canvas rect color = some (canvas.fill rect color) := by
  have hrows : (canvas.region rect).rows.foldlM (fillRow canvas (canvas.region rect) color)
      canvas.pixels = some (canvas.fill rect color).pixels :=
    foldlM_rows_eq_paint (fun _ _ _ => color) fun _ hy _ hsize => fillRow_eq h color hy hsize
  simp only [fill, region_eq h hrect, Option.bind_eq_bind, Option.bind_some, hrows]
  rfl

theorem sample_eq {cell start length : Nat} (hlt : cell * canvas.sampleSize < 2 ^ 32) :
    sample canvas cell start length = some (canvas.sample cell start length) := by
  rw [sample, fits_of_lt hlt]
  rfl

variable {blend : BlendMode} {decoded : PixelBuffer}

/-- The pixel that a frame leaves at the place `i` of the canvas. -/
def drawn (canvas : Canvas) (rect : Rect) (blend : BlendMode) (decoded : PixelBuffer) (i : Nat) :
    Pixel → Pixel :=
  blend.merge (canvas.sampled rect decoded (i % canvas.size.width) (i / canvas.size.width))

theorem drawCell_eq (h : canvas.Samples size sampleSize) (rect : Rect) (blend : BlendMode)
    (decoded : PixelBuffer) (hy : y < canvas.size.height) (hx : x < canvas.size.width)
    {pixels : Array Pixel} (hsize : pixels.size = canvas.pixels.size) :
    drawCell canvas rect blend decoded y (canvas.sample y rect.y decoded.height) pixels x =
      some (changeAt (· = y * canvas.size.width + x) (drawn canvas rect blend decoded)
        pixels) := by
  have hindex : y * canvas.size.width + x < pixels.size := hsize ▸ h.index_lt hx hy
  have hmod : (y * canvas.size.width + x) % canvas.size.width = x := Nat.mul_add_mod_of_lt hx
  have hdiv : (y * canvas.size.width + x) / canvas.size.width = y :=
    canvas.image.index_div_width hx
  rw [← modify_eq_changeAt hindex, drawn, hmod, hdiv, drawCell, sample_eq (h.column_lt hx),
    place_eq h (Nat.le_of_lt hx) hy]
  rfl

theorem drawRow_eq (h : canvas.Samples size sampleSize) (blend : BlendMode)
    (decoded : PixelBuffer) (hy : y ∈ (canvas.region rect).rows) {pixels : Array Pixel}
    (hsize : pixels.size = canvas.pixels.size) :
    drawRow canvas (canvas.region rect) rect blend decoded pixels y =
      some (changeAt ((canvas.region rect).InRow canvas.size.width y)
        (drawn canvas rect blend decoded) pixels) := by
  have hrow := Canvas.lt_height_of_mem_rows hy
  have hcolumn : ∀ x ∈ (canvas.region rect).columns, x < canvas.size.width :=
    fun _ => Canvas.lt_width_of_mem_columns
  have hcells := foldlM_eq_changeAt (fun x i => i = y * canvas.size.width + x)
    (· % canvas.size.width)
    (fun x hx _ hsize => drawCell_eq h rect blend decoded hrow (hcolumn x hx) hsize)
    (fun x hx _ hi => hi ▸ Nat.mul_add_mod_of_lt (hcolumn x hx))
    (canvas.region rect).nodup_columns hsize
  rw [drawRow, sample_eq (h.row_lt hrow)]
  refine hcells.trans (congrArg some ?_)
  exact changeAt_congr (fun _ _ => Region.exists_cell_iff) fun _ _ _ => rfl

/-- A frame is drawn into its rectangle without a failure. -/
theorem draw_eq (h : canvas.Samples size sampleSize) (hrect : rect.IsWord) (blend : BlendMode)
    (decoded : PixelBuffer) :
    draw canvas rect blend decoded = some (canvas.draw rect blend decoded) := by
  have hrows : (canvas.region rect).rows.foldlM
      (drawRow canvas (canvas.region rect) rect blend decoded) canvas.pixels =
        some (canvas.draw rect blend decoded).pixels := by
    rw [canvas.draw_eq_paint]
    exact foldlM_rows_eq_paint _ fun _ hy _ hsize => drawRow_eq h blend decoded hy hsize
  simp only [draw, region_eq h hrect, Option.bind_eq_bind, Option.bind_some, hrows]
  rfl

/-- The canvas is made ready for a frame without a failure. -/
theorem prepare_eq (h : canvas.Samples size sampleSize)
    (hlast : canvas.LastIsWord)
    (background : Pixel) {place : Placement} (hrect : place.rect.IsWord) :
    prepare canvas background place = some (canvas.prepare background place) := by
  have hstart : (if place.index = 0 then canvas.restart else canvas).Samples size sampleSize := by
    split
    · exact h.restart
    · exact h
  have hcleared : (if place.index = 0 then canvas.restart else canvas).LastIsWord := by
    split
    · exact Canvas.lastIsWord_of_none rfl
    · exact hlast
  simp only [prepare, Canvas.prepare]
  generalize (if place.index = 0 then canvas.restart else canvas) = start at hstart hcleared ⊢
  cases hprevious : start.previous with
  | none =>
    cases place.blend with
    | «over» => rfl
    | replace => exact fill_eq hstart hrect _
  | some last =>
    obtain ⟨rect, disposal⟩ := last
    cases disposal with
    | background => exact fill_eq hstart (hcleared rect _ hprevious) background
    | keep =>
      cases place.blend with
      | «over» => rfl
      | replace => exact fill_eq hstart hrect _

/-- **A frame.** It is drawn without a failure. -/
theorem addFrame_eq (h : canvas.Samples size sampleSize)
    (hlast : canvas.LastIsWord)
    (background : Pixel) {place : Placement} (hrect : place.rect.IsWord) (decoded : PixelBuffer) :
    addFrame canvas background place decoded =
      some (canvas.addFrame background place decoded) := by
  have hdraw := draw_eq (h.prepare background place) hrect place.blend decoded
  simp only [addFrame, prepare_eq h hlast background hrect, Option.bind_eq_bind,
    Option.bind_some, hdraw]
  rfl

end Checked

end WebP
