import Mathlib.Algebra.Ring.Defs
import Mathlib.Data.List.GetD

/-! Arrays whose last axis is cut, padded and written to.

The other axes only name rows, and all rows have one width. An operation is `none` where
its bounds are out of range or its widths differ, which is where an array library refuses
or clips. Each is given by its width and its samples. -/

set_option autoImplicit false

namespace Stemd.Semantics

structure Rows (ι K : Type) where
  width : Nat
  row : ι → List K
  shape : ∀ i, (row i).length = width

namespace Rows

variable {ι κ K : Type}

def reindex (names : κ → ι) (x : Rows ι K) : Rows κ K where
  width := x.width
  row k := x.row (names k)
  shape k := x.shape (names k)

/-- `x[..., lo..hi]` -/
def index (x : Rows ι K) (lo hi : Int) : Option (Rows ι K) :=
  if inside : 0 ≤ lo ∧ lo ≤ hi ∧ hi ≤ x.width then
    some {
      width := hi.toNat - lo.toNat
      row := fun i => ((x.row i).take hi.toNat).drop lo.toNat
      shape := fun i => by
        have width := x.shape i
        simp only [List.length_drop, List.length_take]
        omega }
  else none

/-- `x[..., lo..hi] = y` -/
def setIndex (x : Rows ι K) (lo hi : Int) (y : Rows ι K) : Option (Rows ι K) :=
  if inside : 0 ≤ lo ∧ lo ≤ hi ∧ hi ≤ x.width ∧ (y.width : Int) = hi - lo then
    some {
      width := x.width
      row := fun i => (x.row i).take lo.toNat ++ (y.row i ++ (x.row i).drop hi.toNat)
      shape := fun i => by
        have width := x.shape i
        have piece := y.shape i
        simp only [List.length_append, List.length_take, List.length_drop]
        omega }
  else none

def zipWith (f : K → K → K) (x y : Rows ι K) : Option (Rows ι K) :=
  if same : x.width = y.width then
    some {
      width := x.width
      row := fun i => (x.row i).zipWith f (y.row i)
      shape := fun i => by
        rw [List.length_zipWith, x.shape, y.shape, ← same, Nat.min_self] }
  else none

variable [Zero K]

def zeros (ι K : Type) [Zero K] (width : Nat) : Rows ι K where
  width := width
  row _ := List.replicate width 0
  shape _ := List.length_replicate

def pad (x : Rows ι K) (left right : Int) : Option (Rows ι K) :=
  if 0 ≤ left ∧ 0 ≤ right then
    some {
      width := left.toNat + (x.width + right.toNat)
      row := fun i =>
        List.replicate left.toNat 0 ++ (x.row i ++ List.replicate right.toNat 0)
      shape := fun i => by simp [x.shape i] }
  else none

def sample (x : Rows ι K) (i : ι) (t : Nat) : K := (x.row i).getD t 0

theorem ext_sample {x y : Rows ι K} (width : x.width = y.width)
    (same : ∀ i t, t < x.width → x.sample i t = y.sample i t) : x = y := by
  have rows : x.row = y.row := by
    funext i
    apply List.ext_getElem
    · rw [x.shape, y.shape, width]
    intro t left right
    have here := same i t (x.shape i ▸ left)
    rwa [sample, sample, List.getD_eq_getElem _ _ left, List.getD_eq_getElem _ _ right] at here
  obtain ⟨width', row, shape⟩ := x
  obtain ⟨width'', row', shape'⟩ := y
  cases width
  cases rows
  rfl

@[simp] theorem reindex_sample (names : κ → ι) (x : Rows ι K) (k : κ) (t : Nat) :
    (x.reindex names).sample k t = x.sample (names k) t := rfl

@[simp] theorem zeros_sample (width : Nat) (i : ι) (t : Nat) :
    (zeros ι K width).sample i t = 0 := by
  simp only [sample, zeros, List.getD_eq_getElem?_getD, List.getElem?_replicate]
  split <;> rfl

theorem sample_beyond {x : Rows ι K} {t : Nat} (i : ι) (beyond : x.width ≤ t) :
    x.sample i t = 0 :=
  List.getD_eq_default _ _ (by rwa [x.shape])

theorem index_spec {x : Rows ι K} {lo hi : Int} (low : 0 ≤ lo) (ordered : lo ≤ hi)
    (inside : hi ≤ x.width) :
    ∃ y, x.index lo hi = some y ∧ (y.width : Int) = hi - lo ∧
      ∀ i (t : Nat), t < hi - lo → y.sample i t = x.sample i (lo.toNat + t) := by
  refine ⟨_, dif_pos ⟨low, ordered, inside⟩, by dsimp only; omega, fun i t below => ?_⟩
  simp only [sample, List.getD_eq_getElem?_getD, List.getElem?_drop, List.getElem?_take]
  rw [if_pos (by omega)]

theorem setIndex_spec {x y : Rows ι K} {lo hi : Int} (low : 0 ≤ lo) (ordered : lo ≤ hi)
    (inside : hi ≤ x.width) (fits : (y.width : Int) = hi - lo) :
    ∃ z, x.setIndex lo hi y = some z ∧ z.width = x.width ∧
      ∀ i (t : Nat), z.sample i t =
        if lo ≤ t ∧ t < hi then y.sample i (t - lo.toNat) else x.sample i t := by
  refine ⟨_, dif_pos ⟨low, ordered, inside, fits⟩, rfl, fun i t => ?_⟩
  have width := x.shape i
  have piece := y.shape i
  have front : ((x.row i).take lo.toNat).length = lo.toNat := by
    rw [List.length_take]
    omega
  simp only [sample, List.getD_eq_getElem?_getD, List.getElem?_append, front, piece,
    List.getElem?_drop, List.getElem?_take]
  by_cases before : t < lo.toNat
  · rw [if_pos before, if_pos before, if_neg (by omega)]
  · rw [if_neg before]
    by_cases within : t - lo.toNat < y.width
    · rw [if_pos within, if_pos (by omega)]
    · rw [if_neg within, if_neg (by omega)]
      congr 2
      omega

theorem zipWith_spec (f : K → K → K) {x y : Rows ι K} (same : x.width = y.width) :
    ∃ z, x.zipWith f y = some z ∧ z.width = x.width ∧
      ∀ i t, t < x.width → z.sample i t = f (x.sample i t) (y.sample i t) := by
  refine ⟨_, dif_pos same, rfl, fun i t below => ?_⟩
  have left : t < (x.row i).length := by rwa [x.shape]
  have right : t < (y.row i).length := by rwa [y.shape, ← same]
  have both : t < ((x.row i).zipWith f (y.row i)).length := by
    rw [List.length_zipWith]
    omega
  simp only [sample]
  rw [List.getD_eq_getElem _ _ left, List.getD_eq_getElem _ _ right, List.getD_eq_getElem _ _ both,
    List.getElem_zipWith]

theorem pad_spec (x : Rows ι K) {left right : Int} (before : 0 ≤ left) (after : 0 ≤ right) :
    ∃ y, x.pad left right = some y ∧ (y.width : Int) = left + x.width + right ∧
      ∀ i (t : Nat), left ≤ t → y.sample i t = x.sample i (t - left.toNat) := by
  refine ⟨_, if_pos ⟨before, after⟩, by dsimp only; omega, fun i t past => ?_⟩
  have width := x.shape i
  simp only [sample, List.getD_eq_getElem?_getD, List.getElem?_append, List.length_replicate,
    List.getElem?_replicate]
  rw [if_neg (by omega)]
  split
  · rfl
  · rename_i beyond
    rw [List.getElem?_eq_none (Nat.le_of_not_lt beyond)]
    split <;> rfl

theorem pad_before {x y : Rows ι K} {left right : Int} (padded : x.pad left right = some y) (i : ι)
    {t : Nat} (before : t < left) : y.sample i t = 0 := by
  rw [pad] at padded
  split at padded
  · cases padded
    have early : t < (List.replicate left.toNat (0 : K)).length := by
      rw [List.length_replicate]
      omega
    rw [sample, List.getD_append _ _ _ _ early, List.getD_replicate]
    omega
  · cases padded

theorem accumulate_spec {K : Type} [AddMonoid K] {x y : Rows ι K} {lo hi : Int} (low : 0 ≤ lo)
    (ordered : lo ≤ hi) (inside : hi ≤ x.width) (fits : (y.width : Int) = hi - lo) :
    ∃ slice sum z, x.index lo hi = some slice ∧ slice.zipWith (· + ·) y = some sum ∧
      x.setIndex lo hi sum = some z ∧ z.width = x.width ∧
      ∀ i (t : Nat), z.sample i t =
        if lo ≤ t ∧ t < hi then x.sample i t + y.sample i (t - lo.toNat) else x.sample i t := by
  obtain ⟨slice, sliced, sliceWidth, sliceSample⟩ := index_spec low ordered inside
  obtain ⟨sum, summed, sumWidth, sumSample⟩ :=
    zipWith_spec (· + ·) (x := slice) (y := y) (by omega)
  obtain ⟨z, written, width, sample⟩ := setIndex_spec (y := sum) low ordered inside (by omega)
  refine ⟨slice, sum, z, sliced, summed, written, width, fun i t => ?_⟩
  rw [sample]
  split
  · rename_i here
    rw [sumSample _ _ (by omega), sliceSample _ _ (by omega)]
    congr 2
    omega
  · rfl

end Rows

end Stemd.Semantics
