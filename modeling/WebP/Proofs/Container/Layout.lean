import Mathlib.Tactic.MkIffOfInductiveProp
import Mathlib.Tactic.Tauto
import WebP.Chunk.Kind

/-!
# The order of the chunks of a file

Which kinds of chunks may stand together, how often and in which order. The rules are about the
whole list of kinds and do not mention a state. Each of them says what the last element of a
list has to do with those before it, so the rules hold of a list exactly if every chunk is
allowed to follow the ones before it.

## Main definitions

* `WebP.Preceded`: one kind occurs only behind another one.
* `WebP.Layout`: the order of the chunks of a file.
* `WebP.Follows`: a kind is allowed behind given ones.
* `WebP.FrameLayout`, `WebP.FollowsInFrame`: the same inside a frame.

## Main results

* `WebP.layout_concat_iff`, `WebP.frameLayout_concat_iff`: the rules, one chunk at a time.
-/

namespace WebP

namespace ChunkKind

theorem isImage_iff {kind : ChunkKind} :
    kind.isImage = true ↔ kind = .lossy ∨ kind = .lossless := by
  cases kind <;> simp [isImage]

theorem isKnown_eq_false_iff {kind : ChunkKind} :
    kind.isKnown = false ↔ ∃ name, kind = .unknown name := by
  cases kind <;> simp [isKnown]

end ChunkKind

/-- Each `later` has an `earlier` somewhere before it. -/
def Preceded (kinds : List ChunkKind) (later earlier : ChunkKind) : Prop :=
  ∀ front back, kinds = front ++ later :: back → earlier ∈ front

theorem Preceded.mem {kinds : List ChunkKind} {later earlier : ChunkKind}
    (h : Preceded kinds later earlier) (hmem : later ∈ kinds) : earlier ∈ kinds := by
  obtain ⟨front, back, rfl⟩ := List.append_of_mem hmem
  exact List.mem_append_left _ (h front back rfl)

/-- The kinds of the chunks of a file stand in an allowed order. -/
@[mk_iff]
structure Layout (kinds : List ChunkKind) : Prop where
  canvas_once : kinds.count .canvas ≤ 1
  animation_once : kinds.count .animation ≤ 1
  alpha_once : kinds.count .alpha ≤ 1
  profile_once : kinds.count .iccp ≤ 1
  image_once : kinds.countP ChunkKind.isImage ≤ 1
  animation_extended : Preceded kinds .animation .canvas
  alpha_extended : Preceded kinds .alpha .canvas
  profile_extended : Preceded kinds .iccp .canvas
  frame_animated : Preceded kinds .frame .animation
  /-- No extended header comes after an image. -/
  canvas_first : kinds.Pairwise fun a b => a.isImage → b ≠ .canvas
  /-- No image and no alpha plane comes after an animation header. -/
  still_first : kinds.Pairwise fun a b => a = .animation → ¬ (b.isImage ∨ b = .alpha)
  /-- No alpha plane comes after an image. -/
  alpha_first : kinds.Pairwise fun a b => a.isImage → b ≠ .alpha
  alpha_lossy : ¬ (.alpha ∈ kinds ∧ .lossless ∈ kinds)
  /-- No colour profile comes after what depends on it. -/
  profile_first : kinds.Pairwise fun a b =>
    (a.isImage ∨ a = .animation ∨ a = .frame ∨ a = .alpha) → b ≠ .iccp

/-- A chunk of the kind may come behind chunks of the kinds in `kinds`. -/
def Follows (kinds : List ChunkKind) : ChunkKind → Prop
  | .canvas => .canvas ∉ kinds ∧ ∀ k ∈ kinds, ¬ k.isImage
  | .animation => .canvas ∈ kinds ∧ .animation ∉ kinds
  | .frame => .animation ∈ kinds
  | .lossy => (∀ k ∈ kinds, ¬ k.isImage) ∧ .animation ∉ kinds
  | .lossless => (∀ k ∈ kinds, ¬ k.isImage) ∧ .animation ∉ kinds ∧ .alpha ∉ kinds
  | .alpha => .canvas ∈ kinds ∧ .animation ∉ kinds ∧ (∀ k ∈ kinds, ¬ k.isImage) ∧ .alpha ∉ kinds
  | .iccp => .canvas ∈ kinds ∧ (∀ k ∈ kinds, ¬ k.isImage) ∧ .animation ∉ kinds ∧
      .frame ∉ kinds ∧ .alpha ∉ kinds ∧ .iccp ∉ kinds
  | .exif | .xmp | .unknown _ => True

/-- The kinds of the chunks inside a frame stand in an allowed order. -/
@[mk_iff]
structure FrameLayout (kinds : List ChunkKind) : Prop where
  allowed : ∀ k ∈ kinds, k = .alpha ∨ k.isImage ∨ k.isKnown = false
  alpha_once : kinds.count .alpha ≤ 1
  image_once : kinds.countP ChunkKind.isImage ≤ 1
  /-- No alpha plane comes after the image. -/
  alpha_first : kinds.Pairwise fun a b => a.isImage → b ≠ .alpha
  alpha_lossy : ¬ (.alpha ∈ kinds ∧ .lossless ∈ kinds)

/-- A chunk of the kind may come, inside a frame, behind chunks of the kinds in `kinds`. -/
def FollowsInFrame (kinds : List ChunkKind) : ChunkKind → Prop
  | .alpha => .alpha ∉ kinds ∧ ∀ k ∈ kinds, ¬ k.isImage
  | .lossy => ∀ k ∈ kinds, ¬ k.isImage
  | .lossless => (∀ k ∈ kinds, ¬ k.isImage) ∧ .alpha ∉ kinds
  | .unknown _ => True
  | .animation | .frame | .exif | .iccp | .canvas | .xmp => False

/-! ### One more element -/

section Concat

variable {kinds : List ChunkKind} {kind : ChunkKind}

theorem preceded_nil (later earlier : ChunkKind) : Preceded [] later earlier := by
  intro front back h
  simp at h

theorem preceded_concat_iff {later earlier : ChunkKind} :
    Preceded (kinds ++ [kind]) later earlier ↔
      Preceded kinds later earlier ∧ (kind = later → earlier ∈ kinds) := by
  constructor
  · intro h
    refine ⟨fun front back hk => h front (back ++ [kind]) (by simp [hk]), ?_⟩
    rintro rfl
    exact h kinds [] rfl
  · rintro ⟨hkinds, hlast⟩ front back hk
    rcases List.eq_nil_or_concat back with rfl | ⟨back, last, rfl⟩
    · obtain ⟨rfl, hkind⟩ := List.append_inj' hk rfl
      exact hlast (List.singleton_inj.mp hkind)
    · have hk' : kinds ++ [kind] = (front ++ later :: back) ++ [last] := by simp [hk]
      obtain ⟨hfront, -⟩ := List.append_inj' hk' rfl
      exact hkinds front back hfront

theorem pairwise_concat_iff {R : ChunkKind → ChunkKind → Prop} :
    (kinds ++ [kind]).Pairwise R ↔ kinds.Pairwise R ∧ ∀ k ∈ kinds, R k kind := by
  simp [List.pairwise_append]

theorem countP_concat_le_one_iff {p : ChunkKind → Bool} :
    (kinds ++ [kind]).countP p ≤ 1 ↔
      kinds.countP p ≤ 1 ∧ (p kind → ∀ k ∈ kinds, ¬ p k) := by
  rw [List.countP_append, ← List.countP_eq_zero]
  by_cases hp : p kind
  · simp only [List.countP_singleton, hp, if_true, forall_const]
    omega
  · simp [hp]

theorem count_concat_le_one_iff {k : ChunkKind} :
    (kinds ++ [kind]).count k ≤ 1 ↔ kinds.count k ≤ 1 ∧ (kind = k → k ∉ kinds) := by
  rw [List.count_append, List.count_singleton, ← List.count_eq_zero]
  by_cases hk : kind = k
  · simp only [hk, beq_self_eq_true, if_true, forall_const]
    omega
  · simp [hk]

/-- **The order of a file, one chunk at a time.** -/
theorem layout_concat_iff : Layout (kinds ++ [kind]) ↔ Layout kinds ∧ Follows kinds kind := by
  simp only [layout_iff, count_concat_le_one_iff, countP_concat_le_one_iff, preceded_concat_iff,
    pairwise_concat_iff, List.mem_append, List.mem_singleton]
  -- each rule is now split; a kind is left with the rules that speak of it
  cases kind <;>
    simp [Follows, ChunkKind.isImage_iff, not_or, forall_and, List.forall_mem_ne'] <;> tauto

/-- **The order inside a frame, one chunk at a time.** -/
theorem frameLayout_concat_iff :
    FrameLayout (kinds ++ [kind]) ↔ FrameLayout kinds ∧ FollowsInFrame kinds kind := by
  simp only [frameLayout_iff, List.forall_mem_append, List.forall_mem_singleton,
    count_concat_le_one_iff, countP_concat_le_one_iff, pairwise_concat_iff]
  cases kind <;>
    simp [FollowsInFrame, ChunkKind.isImage_iff, ChunkKind.isKnown_eq_false_iff, not_or,
      forall_and, List.forall_mem_ne'] <;> tauto

theorem layout_nil : Layout [] := by
  simp [layout_iff, preceded_nil]

theorem frameLayout_nil : FrameLayout [] := by
  simp [frameLayout_iff]

end Concat

end WebP
