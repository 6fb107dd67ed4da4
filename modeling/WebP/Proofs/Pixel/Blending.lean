import Mathlib.Algebra.Order.Field.Rat
import Mathlib.Tactic.Linarith
import Mathlib.Tactic.Qify
import Mathlib.Tactic.Ring
import WebP.Pixel.Basic

/-!
# Blending a pixel over another

Where neither of two pixels hides the other, the upper one counts with its alpha and the lower one
with what is left of its own. Each channel of the result is the mean with these weights, which is
taken by a multiplication with the scaled inverse of their sum. All roundings go down. The alpha
loses less than one and never so much that it falls below that of one of the pixels, and a channel
falls at most one below the lower one of the two.

## Main definitions

* `WebP.Pixel.Mixes`: neither pixel hides the other.
* `WebP.Pixel.mean`: a channel of a blended pixel before it is cut to eight bits.
* `WebP.Pixel.MixesInRange`, `WebP.Pixel.IsBlend`: what is true of a blended pixel.

## Main results

* `WebP.Pixel.visibleAlpha_bounds`: how the alpha of the lower pixel is rounded.
* `WebP.Pixel.min_le_weightedMean_add_one`, `WebP.Pixel.weightedMean_le_max`: how a mean is rounded.
* `WebP.Pixel.isBlend_over`: blending is a rounded `over` for all pixels.
-/

namespace WebP.Pixel

variable {a r g b w₁ w₂ c₁ c₂ : Nat} {src dst : Pixel}

/-! ### Channels -/

theorem alpha_lt (p : Pixel) : p.alpha < 256 := by
  have hlt := p.toNat_lt
  rw [alpha]
  omega

/-- The channels of a pixel that carry its colour. -/
def colors : List (Pixel → Nat) := [red, green, blue]

theorem mem_colors_iff {color : Pixel → Nat} :
    color ∈ colors ↔ color = red ∨ color = green ∨ color = blue := by
  simp only [colors, List.mem_cons, List.not_mem_nil, or_false]

theorem color_lt {color : Pixel → Nat} (h : color ∈ colors) (p : Pixel) : color p < 256 := by
  rcases mem_colors_iff.mp h with rfl | rfl | rfl <;> exact Nat.mod_lt _ (by decide)

theorem toNat_ofChannels (ha : a < 256) (hr : r < 256) (hg : g < 256) (hb : b < 256) :
    (ofChannels a r g b).toNat = a * 0x1000000 + r * 0x10000 + g * 256 + b := by
  have hfits : a * 0x1000000 + r * 0x10000 + g * 256 + b < UInt32.size := by
    rw [UInt32.size]
    omega
  exact UInt32.toNat_ofNat_of_lt' hfits

/-- Channels that fit in eight bits do not touch each other. -/
theorem channels_ofChannels (ha : a < 256) (hr : r < 256) (hg : g < 256) (hb : b < 256) :
    (ofChannels a r g b).alpha = a ∧ (ofChannels a r g b).red = r ∧
      (ofChannels a r g b).green = g ∧ (ofChannels a r g b).blue = b := by
  have hword := toNat_ofChannels ha hr hg hb
  simp only [alpha, red, green, blue, hword]
  omega

/-! ### The weights -/

/-- The sum of the weights of two pixels, which is the alpha of the blended one. -/
def totalWeight (src dst : Pixel) : Nat := src.alpha + dst.visibleAlpha src.alpha

/-- What is left of the lower alpha is the product rounded down. -/
theorem visibleAlpha_bounds (dst : Pixel) (ha : a ≤ 256) :
    256 * dst.visibleAlpha a + dst.alpha * a ≤ 256 * dst.alpha ∧
      256 * dst.alpha < 256 * (dst.visibleAlpha a + 1) + dst.alpha * a := by
  have hproduct : dst.alpha * (256 - a) + dst.alpha * a = 256 * dst.alpha := by
    rw [← Nat.mul_add, Nat.sub_add_cancel ha, Nat.mul_comm]
  rw [visibleAlpha]
  omega

theorem totalWeight_pos (h : src.alpha ≠ 0) : 0 < totalWeight src dst :=
  Nat.lt_of_lt_of_le (Nat.pos_of_ne_zero h) (Nat.le_add_right _ _)

theorem totalWeight_lt (src dst : Pixel) : totalWeight src dst < 256 := by
  have hsrc := src.alpha_lt
  have hvisible : dst.visibleAlpha src.alpha < 256 - src.alpha :=
    Nat.div_lt_of_lt_mul (Nat.mul_lt_mul_of_pos_right dst.alpha_lt (Nat.sub_pos_of_lt hsrc))
  rw [totalWeight]
  omega

/-- The blended alpha is at least that of each pixel. -/
theorem max_le_totalWeight (src dst : Pixel) : max src.alpha dst.alpha ≤ totalWeight src dst := by
  have hsrc := src.alpha_lt
  have hproduct : dst.alpha * src.alpha ≤ 255 * src.alpha :=
    Nat.mul_le_mul_right _ (Nat.le_of_lt_succ dst.alpha_lt)
  have hbounds := visibleAlpha_bounds dst (Nat.le_of_lt hsrc)
  rw [totalWeight]
  omega

/-- The alpha of `src` over `dst` without rounding. -/
def exactAlpha (src dst : Pixel) : ℚ := src.alpha + dst.alpha * (255 - src.alpha) / 255

/-- The alpha is rounded by less than one, in either direction: the product is divided by 256 and
not by 255, and then rounded down. -/
theorem abs_totalWeight_sub_lt (src dst : Pixel) :
    |(totalWeight src dst : ℚ) - exactAlpha src dst| < 1 := by
  have hproduct : dst.alpha * src.alpha ≤ 255 * 255 :=
    Nat.mul_le_mul (Nat.le_of_lt_succ dst.alpha_lt) (Nat.le_of_lt_succ src.alpha_lt)
  obtain ⟨hle, hlt⟩ := visibleAlpha_bounds dst (Nat.le_of_lt src.alpha_lt)
  have hpos : 0 ≤ dst.alpha * src.alpha := Nat.zero_le _
  qify at hproduct hle hlt hpos
  have hdiff : (totalWeight src dst : ℚ) - exactAlpha src dst =
      dst.visibleAlpha src.alpha - dst.alpha + dst.alpha * src.alpha / 255 := by
    rw [totalWeight, exactAlpha]
    push_cast
    ring
  rw [hdiff, abs_lt]
  constructor <;> linarith

/-! ### Weighted means -/

/-- The mean of two channels with weights, before it is cut to eight bits. -/
def weightedMean (w₁ w₂ c₁ c₂ : Nat) : Nat :=
  (c₁ * w₁ + c₂ * w₂) * (0x1000000 / (w₁ + w₂)) / 0x1000000

theorem blendChannel_eq (w₁ w₂ c₁ c₂ : Nat) :
    blendChannel w₁ w₂ c₁ c₂ = weightedMean w₁ w₂ c₁ c₂ % 256 := rfl

/-- The scaled inverse of a sum, multiplied by the sum again, falls short of the scale by less than
the sum. -/
theorem scaledInverse_bounds (h : 0 < w₁ + w₂) :
    (w₁ + w₂) * (0x1000000 / (w₁ + w₂)) ≤ 0x1000000 ∧
      0x1000000 < (w₁ + w₂) * (0x1000000 / (w₁ + w₂)) + (w₁ + w₂) :=
  ⟨Nat.mul_div_le _ _, Nat.lt_mul_div_succ _ h⟩

/-- A sum with weights lies between the sums that have the lower and the higher channel only. -/
theorem weightedSum_bounds (w₁ w₂ c₁ c₂ : Nat) :
    min c₁ c₂ * (w₁ + w₂) ≤ c₁ * w₁ + c₂ * w₂ ∧ c₁ * w₁ + c₂ * w₂ ≤ max c₁ c₂ * (w₁ + w₂) := by
  rw [Nat.mul_add, Nat.mul_add]
  exact ⟨Nat.add_le_add (Nat.mul_le_mul_right _ (Nat.min_le_left _ _))
      (Nat.mul_le_mul_right _ (Nat.min_le_right _ _)),
    Nat.add_le_add (Nat.mul_le_mul_right _ (Nat.le_max_left _ _))
      (Nat.mul_le_mul_right _ (Nat.le_max_right _ _))⟩

/-- The product that is scaled down is at most the higher channel, scaled up. -/
theorem scaledSum_le (h : 0 < w₁ + w₂) :
    (c₁ * w₁ + c₂ * w₂) * (0x1000000 / (w₁ + w₂)) ≤ max c₁ c₂ * 0x1000000 :=
  calc (c₁ * w₁ + c₂ * w₂) * (0x1000000 / (w₁ + w₂))
      ≤ max c₁ c₂ * (w₁ + w₂) * (0x1000000 / (w₁ + w₂)) :=
        Nat.mul_le_mul_right _ (weightedSum_bounds w₁ w₂ c₁ c₂).2
    _ = max c₁ c₂ * ((w₁ + w₂) * (0x1000000 / (w₁ + w₂))) := Nat.mul_assoc _ _ _
    _ ≤ max c₁ c₂ * 0x1000000 := Nat.mul_le_mul_left _ (scaledInverse_bounds h).1

/-- A mean is at most the higher one of the channels. -/
theorem weightedMean_le_max (h : 0 < w₁ + w₂) : weightedMean w₁ w₂ c₁ c₂ ≤ max c₁ c₂ :=
  Nat.div_le_of_le_mul (Nat.le_trans (scaledSum_le h) (Nat.le_of_eq (Nat.mul_comm _ _)))

/-- A mean is at most one below the lower one of the channels, as long as the error of the inverse,
counted once for each unit of the channel and of the weights, stays below the scale. -/
theorem min_le_weightedMean_add_one (h : 0 < w₁ + w₂)
    (hsmall : min c₁ c₂ * (w₁ + w₂) ≤ 0x1000000) :
    min c₁ c₂ ≤ weightedMean w₁ w₂ c₁ c₂ + 1 := by
  have hscaled : min c₁ c₂ * 0x1000000 ≤
      (c₁ * w₁ + c₂ * w₂) * (0x1000000 / (w₁ + w₂)) + 0x1000000 :=
    calc min c₁ c₂ * 0x1000000
        ≤ min c₁ c₂ * ((w₁ + w₂) * (0x1000000 / (w₁ + w₂)) + (w₁ + w₂)) :=
          Nat.mul_le_mul_left _ (Nat.le_of_lt (scaledInverse_bounds h).2)
      _ = min c₁ c₂ * (w₁ + w₂) * (0x1000000 / (w₁ + w₂)) + min c₁ c₂ * (w₁ + w₂) := by
          rw [Nat.mul_add, Nat.mul_assoc]
      _ ≤ (c₁ * w₁ + c₂ * w₂) * (0x1000000 / (w₁ + w₂)) + 0x1000000 :=
          Nat.add_le_add (Nat.mul_le_mul_right _ (weightedSum_bounds w₁ w₂ c₁ c₂).1) hsmall
  rw [weightedMean]
  omega

/-! ### Blended pixels -/

/-- Neither pixel hides the other, so that their channels are mixed. -/
def Mixes (src dst : Pixel) : Prop := src.alpha ≠ 0 ∧ src.alpha ≠ 255 ∧ dst.alpha ≠ 0

/-- A channel of `src` over `dst`, before it is cut to eight bits. -/
def mean (src dst : Pixel) (color : Pixel → Nat) : Nat :=
  weightedMean src.alpha (dst.visibleAlpha src.alpha) (color src) (color dst)

/-- Where two pixels are mixed into `result`, nothing is divided by zero, every number fits into its
word, and every channel into its eight bits. -/
structure MixesInRange (src dst result : Pixel) : Prop where
  /-- This is what the scale is divided by. -/
  totalWeight_pos : 0 < totalWeight src dst
  totalWeight_lt : totalWeight src dst < 256
  /-- This is the greatest number on the way to a channel. -/
  scaledSum_lt : ∀ color ∈ colors,
    (color src * src.alpha + color dst * dst.visibleAlpha src.alpha) *
      (0x1000000 / totalWeight src dst) < 2 ^ 64
  mean_lt : ∀ color ∈ colors, mean src dst color < 256
  /-- Nothing is cut off, and nothing is added from another channel. -/
  alpha_eq : result.alpha = totalWeight src dst
  color_eq : ∀ color ∈ colors, color result = mean src dst color

/-- `result` is `src` over `dst`, up to rounding. -/
structure IsBlend (src dst result : Pixel) : Prop where
  inRange : Mixes src dst → MixesInRange src dst result
  eq_src : src.alpha = 255 ∨ dst.alpha = 0 → result = src
  eq_dst : src.alpha = 0 → dst.alpha ≠ 0 → result = dst
  max_le_alpha : max src.alpha dst.alpha ≤ result.alpha
  alpha_le : result.alpha ≤ 255
  alpha_near : |(result.alpha : ℚ) - exactAlpha src dst| < 1
  /-- An opaque pixel stays opaque, whatever is blended over it, and hides what is below it. -/
  alpha_opaque : src.alpha = 255 ∨ dst.alpha = 255 → result.alpha = 255
  color_between : src.alpha ≠ 0 → dst.alpha ≠ 0 → ∀ color ∈ colors,
    min (color src) (color dst) ≤ color result + 1 ∧ color result ≤ max (color src) (color dst)

theorem over_of_hides (h : src.alpha = 255 ∨ dst.alpha = 0) : src.over dst = src := if_pos h

theorem over_of_transparent (hsrc : src.alpha = 0) (hdst : dst.alpha ≠ 0) :
    src.over dst = dst := by
  rw [Pixel.over, if_neg (by omega), if_pos hsrc]

theorem max_color_lt {color : Pixel → Nat} (h : color ∈ colors) (src dst : Pixel) :
    max (color src) (color dst) < 256 := max_lt (color_lt h src) (color_lt h dst)

theorem Mixes.mean_lt (h : Mixes src dst) : ∀ color ∈ colors, mean src dst color < 256 :=
  fun _ hcolor => Nat.lt_of_le_of_lt (weightedMean_le_max (Pixel.totalWeight_pos h.1))
    (max_color_lt hcolor src dst)

/-- Where channels are mixed, no channel is cut off. -/
theorem Mixes.over_eq (h : Mixes src dst) :
    src.over dst = ofChannels (totalWeight src dst) (mean src dst red) (mean src dst green)
      (mean src dst blue) := by
  have hcut : ∀ color ∈ colors,
      blendChannel src.alpha (dst.visibleAlpha src.alpha) (color src) (color dst) =
        mean src dst color := by
    intro color hcolor
    rw [blendChannel_eq]
    exact Nat.mod_eq_of_lt (h.mean_lt color hcolor)
  simp only [colors, List.forall_mem_cons] at hcut
  obtain ⟨hred, hgreen, hblue, -⟩ := hcut
  obtain ⟨hsrc, hfull, hdst⟩ := h
  rw [Pixel.over, if_neg (not_or.mpr ⟨hfull, hdst⟩), if_neg hsrc]
  dsimp only
  rw [hred, hgreen, hblue, totalWeight]

theorem Mixes.inRange (h : Mixes src dst) : MixesInRange src dst (src.over dst) := by
  have hmean := h.mean_lt
  simp only [colors, List.forall_mem_cons] at hmean
  obtain ⟨hred, hgreen, hblue, -⟩ := hmean
  obtain ⟨halpha, hr, hg, hb⟩ :=
    channels_ofChannels (Pixel.totalWeight_lt src dst) hred hgreen hblue
  refine
    { totalWeight_pos := Pixel.totalWeight_pos h.1
      totalWeight_lt := Pixel.totalWeight_lt src dst
      scaledSum_lt := fun color hcolor => ?_
      mean_lt := h.mean_lt
      alpha_eq := by rw [h.over_eq, halpha]
      color_eq := fun color hcolor => ?_ }
  · have hmax := max_color_lt hcolor src dst
    refine Nat.lt_of_le_of_lt (scaledSum_le (Pixel.totalWeight_pos h.1)) ?_
    omega
  · rw [h.over_eq]
    rcases mem_colors_iff.mp hcolor with rfl | rfl | rfl
    · exact hr
    · exact hg
    · exact hb

/-- The alpha of a blended pixel is the sum of the weights, also where one pixel hides the other. -/
theorem alpha_over (src dst : Pixel) : (src.over dst).alpha = totalWeight src dst := by
  by_cases hhides : src.alpha = 255 ∨ dst.alpha = 0
  · have hlt := totalWeight_lt src dst
    have hnone : dst.alpha = 0 → dst.visibleAlpha src.alpha = 0 := by
      intro hzero
      rw [visibleAlpha, hzero, Nat.zero_mul, Nat.zero_div]
    rw [over_of_hides hhides]
    rw [totalWeight] at hlt ⊢
    omega
  · rw [not_or] at hhides
    by_cases hsrc : src.alpha = 0
    · rw [over_of_transparent hsrc hhides.2, totalWeight, visibleAlpha, hsrc]
      omega
    · exact (Mixes.inRange ⟨hsrc, hhides⟩).alpha_eq

/-- A colour channel lies between those of the two pixels, up to rounding. -/
theorem color_over_between (hsrc : src.alpha ≠ 0) (hdst : dst.alpha ≠ 0) {color : Pixel → Nat}
    (hcolor : color ∈ colors) :
    min (color src) (color dst) ≤ color (src.over dst) + 1 ∧
      color (src.over dst) ≤ max (color src) (color dst) := by
  by_cases hfull : src.alpha = 255
  · rw [over_of_hides (.inl hfull)]
    omega
  · have hpos : 0 < totalWeight src dst := totalWeight_pos hsrc
    have hsmall : min (color src) (color dst) * totalWeight src dst ≤ 256 * 256 :=
      Nat.mul_le_mul (Nat.le_of_lt (Nat.lt_of_le_of_lt min_le_max (max_color_lt hcolor src dst)))
        (Nat.le_of_lt (totalWeight_lt src dst))
    rw [(Mixes.inRange ⟨hsrc, hfull, hdst⟩).color_eq color hcolor]
    exact ⟨min_le_weightedMean_add_one hpos (Nat.le_trans hsmall (by decide)),
      weightedMean_le_max hpos⟩

/-- **Blending is a rounded `over`.** This is true of all pixels. -/
theorem isBlend_over (src dst : Pixel) : IsBlend src dst (src.over dst) := by
  have halpha := alpha_over src dst
  have hlt := totalWeight_lt src dst
  have hmax := max_le_totalWeight src dst
  exact
    { inRange := fun h => h.inRange
      eq_src := over_of_hides
      eq_dst := over_of_transparent
      max_le_alpha := by rwa [halpha]
      alpha_le := by omega
      alpha_near := by
        rw [halpha]
        exact abs_totalWeight_sub_lt src dst
      alpha_opaque := by omega
      color_between := fun hsrc hdst color => color_over_between hsrc hdst }

/-- A channel can fall below that of both pixels, even if it is the same in both. -/
example : (Pixel.over 0x80ff0000 0xffff0000).red = 254 := by decide

end WebP.Pixel
