import Mathlib.Algebra.Group.Nat.Defs
import Mathlib.Order.MinMax
import WebP.Playback.Decoder

/-!
# The sample size for a wanted size

An image is made smaller by a power of two. A power of two is not above the sample size for a
wanted size exactly if, divided by it, neither length of the image falls below the wanted length.
So the sample size is the greatest such power of two, and it does not grow with what is wanted.

## Main definitions

* `WebP.Size.Reaches`: an image falls below a wanted size in neither direction.
* `WebP.IsSampleSizeFor`: what the sample size for a wanted size is.

## Main results

* `WebP.two_pow_le_sampleSizeFor_iff`: the powers of two that are not above the sample size.
* `WebP.isSampleSizeFor_sampleSizeFor`: the sample size is the greatest power of two that is safe.
-/

namespace WebP

/-! ### Rounding to a power of two -/

theorem floorPowerOfTwo_eq (n : Nat) : floorPowerOfTwo n = 2 ^ n.log2 := Nat.one_shiftLeft _

theorem one_le_floorPowerOfTwo (n : Nat) : 1 ≤ floorPowerOfTwo n := by
  rw [floorPowerOfTwo_eq]
  exact Nat.one_le_two_pow

@[simp] theorem floorPowerOfTwo_two_pow (k : Nat) : floorPowerOfTwo (2 ^ k) = 2 ^ k := by
  rw [floorPowerOfTwo_eq, Nat.log2_two_pow]

/-- Rounding keeps the powers of two below a number. -/
theorem two_pow_le_floorPowerOfTwo_iff {n k : Nat} (positive : 0 < n) :
    2 ^ k ≤ floorPowerOfTwo n ↔ 2 ^ k ≤ n := by
  rw [floorPowerOfTwo_eq, Nat.pow_le_pow_iff_right Nat.one_lt_two,
    Nat.le_log2 (Nat.ne_of_gt positive)]

theorem floorPowerOfTwo_le {n : Nat} (positive : 0 < n) : floorPowerOfTwo n ≤ n := by
  rw [floorPowerOfTwo_eq]
  exact Nat.log2_self_le (Nat.ne_of_gt positive)

theorem floorPowerOfTwo_of_le_one {n : Nat} (small : n ≤ 1) : floorPowerOfTwo n = 1 := by
  rcases Nat.le_one_iff_eq_zero_or_eq_one.mp small with rfl | rfl
  · rfl
  · rfl

theorem floorPowerOfTwo_mono : Monotone floorPowerOfTwo := by
  intro m n hle
  rcases Nat.eq_zero_or_pos m with rfl | hpos
  · exact one_le_floorPowerOfTwo n
  · rw [floorPowerOfTwo_eq m, two_pow_le_floorPowerOfTwo_iff (Nat.lt_of_lt_of_le hpos hle)]
    exact Nat.le_trans (Nat.log2_self_le (Nat.ne_of_gt hpos)) hle

/-- A decoder takes a power of two as its sample size. -/
theorem Decoder.exists_new?_of_two_pow {σ π : Type} (state : σ) (pool : π)
    {config : DecoderConfig} {k : Nat} (power : config.sampleSize = 2 ^ k) :
    ∃ decoder, new? state pool config = .ok decoder ∧ decoder.config.sampleSize = 2 ^ k := by
  have hpos : config.sampleSize ≠ 0 := by
    rw [power]
    exact Nat.ne_of_gt (Nat.two_pow_pos k)
  refine ⟨_, if_neg hpos, ?_⟩
  rw [power, floorPowerOfTwo_two_pow]

/-! ### Ratios -/

/-- A number is not above the ratio of two lengths if, divided by it, the first one is not below
the second one. -/
theorem le_lengthRatio_iff {length target s : Nat} (wanted : 0 < target) (positive : 0 < s) :
    s ≤ lengthRatio length target ↔ target ≤ length / s := by
  rw [lengthRatio, if_neg (Nat.ne_of_gt wanted), Nat.le_div_iff_mul_le wanted,
    Nat.le_div_iff_mul_le positive, Nat.mul_comm]

theorem lengthRatio_pos_iff {length target : Nat} (wanted : 0 < target) :
    0 < lengthRatio length target ↔ target ≤ length := by
  rw [Nat.lt_iff_add_one_le, Nat.zero_add, le_lengthRatio_iff wanted Nat.one_pos, Nat.div_one]

theorem lengthRatio_le_one {length target : Nat} (h : ¬ (0 < target ∧ target ≤ length)) :
    lengthRatio length target ≤ 1 := by
  rw [lengthRatio]
  split
  · exact Nat.le_refl 1
  · rename_i hwanted
    have hlt : length < target := by omega
    rw [Nat.div_eq_of_lt hlt]
    exact Nat.zero_le 1

/-- The more is wanted, the smaller is the ratio. -/
theorem lengthRatio_antitone {length target more : Nat} (wanted : 0 < target)
    (grown : target ≤ more) : lengthRatio length more ≤ lengthRatio length target := by
  rw [lengthRatio, lengthRatio, if_neg (Nat.ne_of_gt wanted),
    if_neg (Nat.ne_of_gt (Nat.lt_of_lt_of_le wanted grown))]
  exact Nat.div_le_div_left grown wanted

/-! ### The sample size -/

/-- Something is wanted in both directions, and the image falls below it in neither. -/
structure Size.Reaches (size target : Size) : Prop where
  width_pos : 0 < target.width
  height_pos : 0 < target.height
  width_le : target.width ≤ size.width
  height_le : target.height ≤ size.height

/-- What the sample size for a wanted size is. -/
structure IsSampleSizeFor (size target : Size) (sampleSize : Nat) : Prop where
  exists_eq_two_pow : ∃ k, sampleSize = 2 ^ k
  /-- No decoder rounds the sample size. -/
  kept : ∀ {σ π : Type} (state : σ) (pool : π) (config : DecoderConfig),
    config.sampleSize = sampleSize →
      ∃ decoder, Decoder.new? state pool config = .ok decoder ∧
        decoder.config.sampleSize = sampleSize
  /-- If the wanted size is not reached to begin with, the image is not made smaller. -/
  eq_one : ¬ size.Reaches target → sampleSize = 1
  /-- If it is reached to begin with, so it is by the smaller image. -/
  reaches : size.Reaches target → (downsampledSize size sampleSize).Reaches target
  /-- It would not be if the lengths were divided by twice as much. -/
  double_too_large : size.Reaches target →
    size.width / (2 * sampleSize) < target.width ∨ size.height / (2 * sampleSize) < target.height
  /-- Nor would it be with any greater power of two. -/
  greater_too_large : size.Reaches target → ∀ k, sampleSize < 2 ^ k →
    size.width / 2 ^ k < target.width ∨ size.height / 2 ^ k < target.height
  /-- Then the smaller image itself falls below the wanted size, if that is more than a single
  pixel in each direction. -/
  not_reaches : size.Reaches target → 1 < target.width → 1 < target.height →
    ∀ k, sampleSize < 2 ^ k → ¬ (downsampledSize size (2 ^ k)).Reaches target
  /-- The sample size does not exceed the lengths of an image that has any pixels. -/
  le_lengths : sampleSize ≤ max size.width 1 ∧ sampleSize ≤ max size.height 1

section SampleSize

variable {size target : Size} {k : Nat}

/-- The ratio of the image to the wanted size, in the direction in which it is less. -/
theorem minRatio_pos (reached : size.Reaches target) :
    0 < min (lengthRatio size.height target.height) (lengthRatio size.width target.width) :=
  Nat.lt_min.mpr ⟨(lengthRatio_pos_iff reached.height_pos).mpr reached.height_le,
    (lengthRatio_pos_iff reached.width_pos).mpr reached.width_le⟩

/-- **Safe powers of two.** A power of two is not above the sample size exactly if, divided by it,
no length of the image falls below the wanted one. -/
theorem two_pow_le_sampleSizeFor_iff (reached : size.Reaches target) :
    2 ^ k ≤ sampleSizeFor size target ↔
      target.width ≤ size.width / 2 ^ k ∧ target.height ≤ size.height / 2 ^ k := by
  have hpos : 0 < 2 ^ k := Nat.two_pow_pos k
  rw [sampleSizeFor, two_pow_le_floorPowerOfTwo_iff (minRatio_pos reached), Nat.le_min,
    le_lengthRatio_iff reached.height_pos hpos, le_lengthRatio_iff reached.width_pos hpos,
    and_comm]

theorem sampleSizeFor_of_not_reaches (h : ¬ size.Reaches target) :
    sampleSizeFor size target = 1 := by
  refine floorPowerOfTwo_of_le_one ?_
  by_cases hwidth : 0 < target.width ∧ target.width ≤ size.width
  · have hheight : ¬ (0 < target.height ∧ target.height ≤ size.height) :=
      fun hheight => h ⟨hwidth.1, hheight.1, hwidth.2, hheight.2⟩
    exact Nat.le_trans (Nat.min_le_left _ _) (lengthRatio_le_one hheight)
  · exact Nat.le_trans (Nat.min_le_right _ _) (lengthRatio_le_one hwidth)

theorem exists_sampleSizeFor_eq (size target : Size) : ∃ k, sampleSizeFor size target = 2 ^ k :=
  ⟨_, floorPowerOfTwo_eq _⟩

/-- A greater power of two than the sample size is too large in one of the directions. -/
theorem lt_or_lt_of_sampleSizeFor_lt (reached : size.Reaches target)
    (greater : sampleSizeFor size target < 2 ^ k) :
    size.width / 2 ^ k < target.width ∨ size.height / 2 ^ k < target.height := by
  by_contra hsafe
  obtain ⟨hwidth, hheight⟩ := not_or.mp hsafe
  have hle := (two_pow_le_sampleSizeFor_iff reached).mpr
    ⟨Nat.le_of_not_lt hwidth, Nat.le_of_not_lt hheight⟩
  exact absurd greater (Nat.not_lt.mpr hle)

/-- The size of an image made smaller by a power of two. -/
theorem downsampledSize_two_pow (size : Size) (k : Nat) :
    downsampledSize size (2 ^ k) = ⟨max (size.width / 2 ^ k) 1, max (size.height / 2 ^ k) 1⟩ := by
  rw [downsampledSize, Nat.max_eq_left Nat.one_le_two_pow]

theorem reaches_downsampledSize (reached : size.Reaches target) :
    (downsampledSize size (sampleSizeFor size target)).Reaches target := by
  obtain ⟨k, hk⟩ := exists_sampleSizeFor_eq size target
  obtain ⟨hwidth, hheight⟩ := (two_pow_le_sampleSizeFor_iff reached).mp (Nat.le_of_eq hk.symm)
  rw [hk, downsampledSize_two_pow]
  exact ⟨reached.width_pos, reached.height_pos, Nat.le_trans hwidth (Nat.le_max_left _ _),
    Nat.le_trans hheight (Nat.le_max_left _ _)⟩

theorem not_reaches_downsampledSize (reached : size.Reaches target) (wide : 1 < target.width)
    (high : 1 < target.height) (greater : sampleSizeFor size target < 2 ^ k) :
    ¬ (downsampledSize size (2 ^ k)).Reaches target := by
  rw [downsampledSize_two_pow]
  intro hreaches
  have hwidth : target.width ≤ max (size.width / 2 ^ k) 1 := hreaches.width_le
  have hheight : target.height ≤ max (size.height / 2 ^ k) 1 := hreaches.height_le
  rcases lt_or_lt_of_sampleSizeFor_lt reached greater with hnarrow | hlow
  · exact absurd (Nat.max_lt.mpr ⟨hnarrow, wide⟩) (Nat.not_lt.mpr hwidth)
  · exact absurd (Nat.max_lt.mpr ⟨hlow, high⟩) (Nat.not_lt.mpr hheight)

theorem sampleSizeFor_le_lengths (size target : Size) :
    sampleSizeFor size target ≤ max size.width 1 ∧
      sampleSizeFor size target ≤ max size.height 1 := by
  have hratio (length target : Nat) : lengthRatio length target ≤ max length 1 := by
    rw [lengthRatio]
    split
    · exact Nat.le_max_right _ _
    · exact Nat.le_trans (Nat.div_le_self _ _) (Nat.le_max_left _ _)
  have hmono {n m : Nat} (h : n ≤ max m 1) : floorPowerOfTwo n ≤ max m 1 := by
    rcases Nat.eq_zero_or_pos n with rfl | hpos
    · exact Nat.le_max_right _ _
    · exact Nat.le_trans (floorPowerOfTwo_le hpos) h
  exact ⟨hmono (Nat.le_trans (Nat.min_le_right _ _) (hratio _ _)),
    hmono (Nat.le_trans (Nat.min_le_left _ _) (hratio _ _))⟩

/-- **The greatest safe sample size.** Whatever the size of an image and the wanted size, the
sample size is a power of two, by which a decoder makes the image as small as it may become
without falling below the wanted size, and no smaller. The more is wanted in a direction, the
smaller is the sample size. -/
theorem isSampleSizeFor_sampleSizeFor (size target : Size) :
    IsSampleSizeFor size target (sampleSizeFor size target) ∧
      (∀ width, 0 < target.width → target.width ≤ width →
        sampleSizeFor size { target with width } ≤ sampleSizeFor size target) ∧
      ∀ height, 0 < target.height → target.height ≤ height →
        sampleSizeFor size { target with height } ≤ sampleSizeFor size target := by
  obtain ⟨k, hk⟩ := exists_sampleSizeFor_eq size target
  refine ⟨?_, ?_, ?_⟩
  · constructor
    case exists_eq_two_pow => exact ⟨k, hk⟩
    case kept =>
      rw [hk]
      exact fun state pool _ => Decoder.exists_new?_of_two_pow state pool
    case eq_one => exact sampleSizeFor_of_not_reaches
    case reaches => exact reaches_downsampledSize
    case double_too_large =>
      intro reached
      have hdouble : 2 * sampleSizeFor size target = 2 ^ (k + 1) := by
        rw [hk, Nat.pow_succ, Nat.mul_comm]
      rw [hdouble]
      refine lt_or_lt_of_sampleSizeFor_lt reached ?_
      rw [hk]
      exact Nat.pow_lt_pow_right Nat.one_lt_two (Nat.lt_succ_self k)
    case greater_too_large => exact fun reached _ => lt_or_lt_of_sampleSizeFor_lt reached
    case not_reaches =>
      exact fun reached wide high _ => not_reaches_downsampledSize reached wide high
    case le_lengths => exact sampleSizeFor_le_lengths size target
  · intro width wanted grown
    exact floorPowerOfTwo_mono (min_le_min_left _ (lengthRatio_antitone wanted grown))
  · intro height wanted grown
    exact floorPowerOfTwo_mono (min_le_min_right _ (lengthRatio_antitone wanted grown))

end SampleSize

example : sampleSizeFor ⟨400, 300⟩ ⟨100, 100⟩ = 2 := by decide

end WebP
