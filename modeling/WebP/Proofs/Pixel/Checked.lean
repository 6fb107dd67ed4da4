import Mathlib.Algebra.Group.Nat.Defs
import Mathlib.Data.List.Nodup
import WebP.Proofs.Pixel.Coordinates

/-!
# Loops over pixels, with checks

Coordinates of pixels are numbers of 32 bits, and places among the words of a buffer are numbers
of 64 bits; a place that is written to lies inside the array. On natural numbers nothing of this
has to hold. Here a number that has too many bits, a division by zero and a place outside the array
make a loop fail, and so does a pixel that is missing. A loop whose passes do not fail and change
different words changes the words of all its passes.

## Main definitions

* `WebP.Checked.fits`, `WebP.Checked.div`: numbers that have to be in range.
* `WebP.Checked.modify`, `WebP.Checked.fillSlice`: changes of words that have to be there.
* `WebP.Checked.downsampleInto`: a smaller copy, made with checks.
* `WebP.Size.IsCanvas`: a size of an image or of a canvas.

## Main results

* `WebP.Checked.foldlM_eq_changeAt`: a loop that does not fail, word by word.
* `WebP.Checked.downsampleInto_eq`: a smaller copy is made without a failure.
-/

namespace WebP

namespace Checked

/-! ### Numbers -/

/-- The number, if it has no more than so many bits. -/
def fits (bits n : Nat) : Option Nat := if n < 2 ^ bits then some n else none

/-- The quotient, rounded down. -/
def div (m n : Nat) : Option Nat := if n = 0 then none else some (m / n)

/-- The rest that the division leaves. -/
def mod (m n : Nat) : Option Nat := if n = 0 then none else some (m % n)

theorem fits_of_lt {bits n : Nat} (h : n < 2 ^ bits) : fits bits n = some n := if_pos h

theorem div_of_pos {m n : Nat} (h : 0 < n) : div m n = some (m / n) := if_neg (Nat.ne_of_gt h)

theorem mod_of_pos {m n : Nat} (h : 0 < n) : mod m n = some (m % n) := if_neg (Nat.ne_of_gt h)

/-! ### Words -/

variable {words : Array UInt32} {touched touched' : Nat → Prop} [DecidablePred touched]
  [DecidablePred touched'] {change change' : Nat → UInt32 → UInt32}

/-- The words at some places changed, each according to its place. -/
def changeAt (touched : Nat → Prop) [DecidablePred touched] (change : Nat → UInt32 → UInt32)
    (words : Array UInt32) : Array UInt32 :=
  words.mapIdx fun i word => if touched i then change i word else word

@[simp] theorem size_changeAt : (changeAt touched change words).size = words.size :=
  Array.size_mapIdx

theorem changeAt_congr (htouched : ∀ i < words.size, touched i ↔ touched' i)
    (hchange : ∀ i < words.size, touched i → change i = change' i) :
    changeAt touched change words = changeAt touched' change' words := by
  refine Array.ext (by simp) fun i hi _ => ?_
  rw [size_changeAt] at hi
  simp only [changeAt, Array.getElem_mapIdx]
  by_cases h : touched i
  · rw [if_pos h, if_pos ((htouched i hi).mp h), hchange i hi h]
  · rw [if_neg h, if_neg fun h' => h ((htouched i hi).mpr h')]

/-- Changes at different places are one change. -/
theorem changeAt_changeAt (hdisjoint : ∀ i, touched i → ¬ touched' i) :
    changeAt touched' change (changeAt touched change words) =
      changeAt (fun i => touched i ∨ touched' i) change words := by
  refine Array.ext (by simp) fun i _ _ => ?_
  simp only [changeAt, Array.getElem_mapIdx]
  by_cases h : touched i
  · rw [if_pos h, if_neg (hdisjoint i h), if_pos (.inl h)]
  · simp only [h, if_false, false_or]

theorem changeAt_of_forall (h : ∀ i < words.size, touched i) :
    changeAt touched change words = words.mapIdx change := by
  refine Array.ext (by simp) fun i hi _ => ?_
  rw [size_changeAt] at hi
  simp only [changeAt, Array.getElem_mapIdx, if_pos (h i hi)]

theorem changeAt_of_not (h : ∀ i < words.size, ¬ touched i) :
    changeAt touched change words = words := by
  refine Array.ext (by simp) fun i hi _ => ?_
  rw [size_changeAt] at hi
  simp only [changeAt, Array.getElem_mapIdx, if_neg (h i hi)]

/-- The word at `i` changed. -/
def modify (words : Array UInt32) (i : Nat) (change : UInt32 → UInt32) :
    Option (Array UInt32) :=
  if i < words.size then some (words.modify i change) else none

/-- The words from `start` on in front of `stop` replaced by one word. -/
def fillSlice (words : Array UInt32) (start stop : Nat) (word : UInt32) :
    Option (Array UInt32) :=
  if start ≤ stop ∧ stop ≤ words.size then
    some (words.extract 0 start ++ Array.replicate (stop - start) word ++
      words.extract stop words.size)
  else
    none

theorem modify_eq_changeAt {i : Nat} (hi : i < words.size) :
    modify words i (change i) = some (changeAt (· = i) change words) := by
  rw [modify, if_pos hi]
  refine congrArg some (Array.ext (by simp) fun j _ _ => ?_)
  simp only [changeAt, Array.getElem_modify, Array.getElem_mapIdx]
  by_cases h : i = j
  · subst h
    simp only [if_true]
  · rw [if_neg h, if_neg (Ne.symm h)]

theorem fillSlice_eq_changeAt {start stop : Nat} (hle : start ≤ stop) (hstop : stop ≤ words.size)
    (word : UInt32) :
    fillSlice words start stop word =
      some (changeAt (fun i => start ≤ i ∧ i < stop) (fun _ _ => word) words) := by
  rw [fillSlice, if_pos ⟨hle, hstop⟩]
  refine congrArg some (Array.ext ?_ fun i _ _ => ?_)
  · simp only [Array.size_append, Array.size_extract, Array.size_replicate, size_changeAt]
    omega
  · simp only [changeAt, Array.getElem_mapIdx, Array.getElem_append, Array.size_append,
      Array.size_extract, Array.size_replicate, Array.getElem_extract, Array.getElem_replicate]
    by_cases hbefore : i < start
    · rw [dif_pos (by omega), dif_pos (by omega), if_neg (by omega)]
      congr 1
      omega
    · by_cases hinside : i < stop
      · rw [dif_pos (by omega), dif_neg (by omega), if_pos ⟨Nat.le_of_not_lt hbefore, hinside⟩]
      · rw [dif_neg (by omega), if_neg fun h => hinside h.2]
        congr 1
        omega

/-! ### Loops -/

/-- **A loop, word by word.** If no pass of a loop fails, and the place of a word tells which pass
it is that changes it, then the loop does not fail, and changes the words of all its passes. -/
theorem foldlM_eq_changeAt {passes : List Nat}
    {pass : Array UInt32 → Nat → Option (Array UInt32)} {size : Nat} (touches : Nat → Nat → Prop)
    [∀ j, DecidablePred (touches j)] (passOf : Nat → Nat)
    (hpass : ∀ j ∈ passes, ∀ words : Array UInt32, words.size = size →
      pass words j = some (changeAt (touches j) change words))
    (hpassOf : ∀ j ∈ passes, ∀ i, touches j i → passOf i = j) (hnodup : passes.Nodup)
    (hsize : words.size = size) :
    passes.foldlM pass words =
      some (changeAt (fun i => ∃ j ∈ passes, touches j i) change words) := by
  induction passes generalizing words with
  | nil =>
    rw [List.foldlM_nil, changeAt_of_not (by simp)]
    rfl
  | cons j passes ih =>
    have hfirst := hpass j List.mem_cons_self words hsize
    have hrest := ih (fun k hk => hpass k (List.mem_cons_of_mem _ hk))
      (fun k hk => hpassOf k (List.mem_cons_of_mem _ hk)) hnodup.of_cons
      (size_changeAt.trans hsize : (changeAt (touches j) change words).size = size)
    rw [List.foldlM_cons, hfirst]
    refine hrest.trans (congrArg some ?_)
    rw [changeAt_changeAt]
    · exact changeAt_congr (by simp) (fun _ _ _ => rfl)
    · -- a later pass that touches the same word would be the same pass
      rintro i hi ⟨k, hk, hki⟩
      have hjk : j = k := (hpassOf j List.mem_cons_self i hi).symm.trans
        (hpassOf k (List.mem_cons_of_mem _ hk) i hki)
      exact (List.nodup_cons.mp hnodup).1 (hjk ▸ hk)

/-! ### Smaller copies -/

/-- Writes the word at `i` of a smaller copy. No pixel may be missing. -/
def copyWord (source : PixelBuffer) (sampleSize : Nat) (output : PixelBuffer)
    (words : Array UInt32) (i : Nat) : Option (Array UInt32) := do
  let x ← fits 32 (← mod i output.width)
  let y ← fits 32 (← div i output.width)
  let word ← source.pixel? (← fits 32 (x * sampleSize)) (← fits 32 (y * sampleSize))
  modify words i fun _ => output.layout.convert word

/-- A smaller copy, written word by word. -/
def downsampleInto (source : PixelBuffer) (sampleSize : Nat) (output : PixelBuffer) :
    Option PixelBuffer := do
  let pixels ← (List.range output.pixels.size).foldlM (copyWord source sampleSize output)
    output.pixels
  return { output with pixels }

end Checked

/-- A width and a height of 32 bits, neither of them zero. -/
structure Size.IsCanvas (size : Size) : Prop where
  width_pos : 0 < size.width
  height_pos : 0 < size.height
  width_lt : size.width < 2 ^ 32
  height_lt : size.height < 2 ^ 32

/-- The pixel that a cell of a smaller image shows lies in the image, also if the image is smaller
than the sample size. -/
theorem mul_lt_of_lt_downsampled {cell length sampleSize : Nat} (positive : 0 < length)
    (h : cell < max (length / max sampleSize 1) 1) : cell * sampleSize < length := by
  rcases Nat.eq_zero_or_pos sampleSize with rfl | hsample
  · exact positive
  · rw [Nat.max_eq_left hsample] at h
    rcases Nat.lt_or_ge cell (length / sampleSize) with hlt | hge
    · exact mul_lt_of_lt_div hlt
    · have hzero : cell = 0 := by omega
      rw [hzero, Nat.zero_mul]
      exact positive

namespace Size.IsCanvas

variable {size : Size} {sampleSize x y : Nat}

theorem area_lt (h : size.IsCanvas) : size.area < 2 ^ 64 :=
  calc size.area < 2 ^ 32 * 2 ^ 32 := Nat.mul_lt_mul'' h.width_lt h.height_lt
    _ = 2 ^ 64 := (Nat.pow_add 2 32 32).symm

theorem mul_lt_width (h : size.IsCanvas) (hx : x < (downsampledSize size sampleSize).width) :
    x * sampleSize < size.width :=
  mul_lt_of_lt_downsampled h.width_pos hx

theorem mul_lt_height (h : size.IsCanvas) (hy : y < (downsampledSize size sampleSize).height) :
    y * sampleSize < size.height :=
  mul_lt_of_lt_downsampled h.height_pos hy

/-- A smaller image is an image. -/
theorem downsampledSize (h : size.IsCanvas) (sampleSize : Nat) :
    (downsampledSize size sampleSize).IsCanvas := by
  have hle (length : Nat) : length / max sampleSize 1 ≤ length := Nat.div_le_self _ _
  have hwidth := hle size.width
  have hheight := hle size.height
  obtain ⟨-, -, hwidth_lt, hheight_lt⟩ := h
  constructor <;> simp only [WebP.downsampledSize] <;> omega

end Size.IsCanvas

namespace Checked

variable {source output : PixelBuffer} {size : Size} {sampleSize : Nat}
  {layout layout' : ColorLayout}

theorem copyWord_eq (h : size.IsCanvas)
    (hsource : source.HasShape size.width size.height layout)
    (houtput : output.HasShape (downsampledSize size sampleSize).width
      (downsampledSize size sampleSize).height layout')
    {i : Nat} (hi : i < output.pixels.size) {words : Array UInt32}
    (hsize : words.size = output.pixels.size) :
    copyWord source sampleSize output words i =
      some (changeAt (· = i) (fun i _ => output.layout.convert
        ((source.pixel? (i % output.width * sampleSize) (i / output.width * sampleSize)).getD
          Pixel.transparent)) words) := by
  have hsmall := h.downsampledSize sampleSize
  obtain ⟨hwidth, -, -, harea⟩ := houtput
  rw [harea, ← hwidth] at hi
  have hpos : 0 < output.width := Nat.pos_of_mul_pos_right (Nat.zero_lt_of_lt hi)
  have hx : i % output.width < (WebP.downsampledSize size sampleSize).width :=
    Nat.lt_of_lt_of_eq (Nat.mod_lt i hpos) hwidth
  have hy : i / output.width < (WebP.downsampledSize size sampleSize).height :=
    Nat.div_lt_of_lt_mul hi
  have hleft := h.mul_lt_width hx
  have htop := h.mul_lt_height hy
  obtain ⟨word, hword⟩ := hsource.exists_pixel? hleft htop
  simp only [copyWord, mod_of_pos hpos, div_of_pos hpos, Option.bind_eq_bind, Option.bind_some,
    fits_of_lt (Nat.lt_trans hx hsmall.width_lt), fits_of_lt (Nat.lt_trans hy hsmall.height_lt),
    fits_of_lt (Nat.lt_trans hleft h.width_lt), fits_of_lt (Nat.lt_trans htop h.height_lt), hword]
  have hmem : i < words.size := by rwa [hsize, harea, ← hwidth]
  refine Eq.trans ?_ (modify_eq_changeAt hmem)
  simp only [hword, Option.getD_some]

/-- **A smaller copy.** No product of it is too large, and no pixel is missing. -/
theorem downsampleInto_eq (h : size.IsCanvas)
    (hsource : source.HasShape size.width size.height layout)
    (houtput : output.HasShape (downsampledSize size sampleSize).width
      (downsampledSize size sampleSize).height layout') :
    downsampleInto source sampleSize output = some (source.downsampleInto sampleSize output) := by
  have hpixels := foldlM_eq_changeAt (fun j i => i = j) id
    (fun i hi words hsize => copyWord_eq h hsource houtput (List.mem_range.mp hi) hsize)
    (fun _ _ _ => id) List.nodup_range rfl
  rw [downsampleInto, hpixels]
  rw [changeAt_of_forall fun i hi => ⟨i, List.mem_range.mpr hi, rfl⟩]
  rfl

end Checked

end WebP
