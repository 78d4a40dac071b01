import Mathlib.Algebra.BigOperators.Ring.List
import Mathlib.Algebra.Order.BigOperators.Group.List
import Mathlib.Algebra.Order.Field.Basic

/-! Means of finitely many values, each with a weight. -/

set_option autoImplicit false

namespace Stemd.Semantics

section

variable {α K : Type} [Semiring K]

def weightSum (weight : α → K) (l : List α) : K := (l.map weight).sum

@[simp] theorem weightSum_nil (weight : α → K) : weightSum weight [] = 0 := rfl

@[simp] theorem weightSum_append (weight : α → K) (l l' : List α) :
    weightSum weight (l ++ l') = weightSum weight l + weightSum weight l' := by
  simp only [weightSum, List.map_append, List.sum_append]

@[simp] theorem weightSum_singleton (weight : α → K) (a : α) : weightSum weight [a] = weight a :=
  List.sum_singleton

theorem weightSum_congr {weight weight' : α → K} {l : List α}
    (same : ∀ a ∈ l, weight a = weight' a) : weightSum weight l = weightSum weight' l := by
  rw [weightSum, weightSum, List.map_congr_left same]

theorem weightSum_mul_left (weight : α → K) (c : K) (l : List α) :
    weightSum (fun a => c * weight a) l = c * weightSum weight l :=
  List.sum_map_mul_left _ _ _

end

section

variable {α K : Type} [Field K]

def weightedMean (weight value : α → K) (l : List α) : K :=
  weightSum (fun a => value a * weight a) l / weightSum weight l

theorem weightedMean_congr {weight value value' : α → K} {l : List α}
    (same : ∀ a ∈ l, value a = value' a) :
    weightedMean weight value l = weightedMean weight value' l := by
  rw [weightedMean, weightedMean, weightSum_congr fun a member => by rw [same a member]]

/-- The unit of the weights does not matter. -/
theorem weightedMean_scale {weight value : α → K} {c : K} (nonzero : c ≠ 0) (l : List α) :
    weightedMean (fun a => c * weight a) value l = weightedMean weight value l := by
  have values : weightSum (fun a => value a * (c * weight a)) l =
      c * weightSum (fun a => value a * weight a) l := by
    rw [← weightSum_mul_left]
    exact weightSum_congr fun a _ => mul_left_comm _ _ _
  rw [weightedMean, weightedMean, values, weightSum_mul_left, mul_div_mul_left _ _ nonzero]

variable [LinearOrder K] [IsStrictOrderedRing K]

theorem weightSum_pos {weight : α → K} {l : List α} (positive : ∀ a ∈ l, 0 < weight a)
    (some : l ≠ []) : 0 < weightSum weight l := by
  apply List.sum_pos
  · intro v member
    obtain ⟨a, inside, rfl⟩ := List.mem_map.mp member
    exact positive a inside
  · exact fun none => some (List.map_eq_nil_iff.mp none)

theorem weightSum_mono {f g : α → K} {l : List α} (below : ∀ a ∈ l, f a ≤ g a) :
    weightSum f l ≤ weightSum g l :=
  List.sum_le_sum below

theorem weightedMean_between {weight value : α → K} {l : List α} {low high : K}
    (positive : ∀ a ∈ l, 0 < weight a) (some : l ≠ [])
    (within : ∀ a ∈ l, low ≤ value a ∧ value a ≤ high) :
    low ≤ weightedMean weight value l ∧ weightedMean weight value l ≤ high := by
  have above := weightSum_pos positive some
  have lower : weightSum (fun a => low * weight a) l ≤ weightSum (fun a => value a * weight a) l :=
    weightSum_mono fun a member =>
      mul_le_mul_of_nonneg_right (within a member).1 (positive a member).le
  have upper : weightSum (fun a => value a * weight a) l ≤ weightSum (fun a => high * weight a) l :=
    weightSum_mono fun a member =>
      mul_le_mul_of_nonneg_right (within a member).2 (positive a member).le
  rw [weightSum_mul_left] at lower upper
  exact ⟨(le_div_iff₀ above).mpr lower, (div_le_iff₀ above).mpr upper⟩

end

end Stemd.Semantics
