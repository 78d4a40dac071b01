import Mathlib.Algebra.BigOperators.Group.List.Basic
import Mathlib.Algebra.Order.Group.Nat
import Mathlib.Data.List.Forall2
import Mathlib.Data.List.GetD
import Mathlib.Tactic.Ring

/-! Arrays of any rank, laid out in row-major order.

A tensor is its shape and its entries in order, so that a reshape keeps the entries and
changes the shape. An operation is `none` where an index, a padding or a size does not fit,
which is where an array library refuses or reads out of bounds. Each is given by the shape
of its result and by the entry it puts at every index. The operations are those of mlx, an array
library from elsewhere, as it documents them. -/

set_option autoImplicit false

namespace Stemd.Semantics

structure Tensor (K : Type) where
  shape : List Nat
  data : List K
  size : data.length = shape.prod
  deriving DecidableEq

/-- Where the entry at an index is among the entries of a shape. -/
def position : List Nat → List Nat → Nat
  | _ :: dims, i :: rest => i * dims.prod + position dims rest
  | _, _ => 0

/-- The index of the entry at a position. -/
def indexAt : List Nat → Nat → List Nat
  | [], _ => []
  | _ :: dims, n => n / dims.prod :: indexAt dims (n % dims.prod)

/-- As many coordinates as the shape has axes, each within its axis. -/
abbrev Within (index shape : List Nat) : Prop := List.Forall₂ (· < ·) index shape

theorem position_lt {shape index : List Nat} (within : Within index shape) :
    position shape index < shape.prod := by
  induction within with
  | nil => simp [position]
  | @cons i dim rest dims below _ ih =>
      -- The inner index stays short of one more row.
      have row : (i + 1) * dims.prod ≤ dim * dims.prod := Nat.mul_le_mul_right _ below
      rw [position, List.prod_cons]
      rw [Nat.succ_mul] at row
      omega

theorem indexAt_position {shape index : List Nat} (within : Within index shape) :
    indexAt shape (position shape index) = index := by
  induction within with
  | nil => rfl
  | @cons i dim rest dims below inner ih =>
      have small := position_lt inner
      rw [position, indexAt, Nat.mul_comm, Nat.mul_add_mod, Nat.mod_eq_of_lt small,
        Nat.mul_add_div (Nat.zero_lt_of_lt small), Nat.div_eq_of_lt small, Nat.add_zero, ih]

theorem within_indexAt {shape : List Nat} {n : Nat} (below : n < shape.prod) :
    Within (indexAt shape n) shape := by
  induction shape generalizing n with
  | nil => exact .nil
  | cons dim dims ih =>
      rw [List.prod_cons] at below
      have positive : 0 < dims.prod := by
        apply Nat.pos_of_ne_zero
        intro none
        simp [none] at below
      refine .cons ?_ (ih (Nat.mod_lt _ positive))
      exact Nat.div_lt_of_lt_mul (by rwa [Nat.mul_comm])

theorem position_indexAt {shape : List Nat} {n : Nat} (below : n < shape.prod) :
    position shape (indexAt shape n) = n := by
  induction shape generalizing n with
  | nil => exact (Nat.lt_one_iff.mp below).symm
  | cons dim dims ih =>
      rw [List.prod_cons] at below
      have positive : 0 < dims.prod := by
        apply Nat.pos_of_ne_zero
        intro none
        simp [none] at below
      rw [indexAt, position, ih (Nat.mod_lt _ positive), Nat.mul_comm, Nat.div_add_mod]

theorem position_append {lead index : List Nat} (rank : index.length = lead.length)
    (trail rest : List Nat) :
    position (lead ++ trail) (index ++ rest) =
      position lead index * trail.prod + position trail rest := by
  induction lead generalizing index with
  | nil =>
      rw [List.length_nil, List.length_eq_zero_iff] at rank
      subst rank
      simp [position]
  | cons dim dims ih =>
      cases index with
      | nil => simp at rank
      | cons i index =>
          have inner := @ih index (by simpa using rank)
          simp only [List.cons_append, position, inner, List.prod_append]
          ring

theorem position_merge {front i : List Nat} (rank : i.length = front.length) (m n : Nat)
    (back : List Nat) (p q : Nat) (j : List Nat) :
    position (front ++ m * n :: back) (i ++ (p * n + q) :: j) =
      position (front ++ m :: n :: back) (i ++ p :: q :: j) := by
  rw [position_append rank, position_append rank]
  simp only [position, List.prod_cons]
  ring

theorem within_append {lead index trail rest : List Nat} (outer : Within index lead)
    (inner : Within rest trail) : Within (index ++ rest) (lead ++ trail) :=
  List.rel_append outer inner

theorem within_split {lead trail index : List Nat} (within : Within index (lead ++ trail)) :
    ∃ front rest, index = front ++ rest ∧ Within front lead ∧ Within rest trail := by
  induction lead generalizing index with
  | nil => exact ⟨[], index, rfl, .nil, within⟩
  | cons dim dims ih =>
      obtain ⟨i, inner, below, tail, rfl⟩ := List.forall₂_cons_right_iff.mp within
      obtain ⟨front, rest, rfl, outer, last⟩ := ih tail
      exact ⟨i :: front, rest, rfl, .cons below outer, last⟩

section

variable {α : Type}

theorem set_length_append (front back : List α) (a b : α) :
    (front ++ a :: back).set front.length b = front ++ b :: back := by
  rw [List.set_append_right _ _ (Nat.le_refl _), Nat.sub_self, List.set_cons_zero]

theorem getD_length_append (front back : List α) (a default : α) :
    (front ++ a :: back).getD front.length default = a := by
  simp

theorem insertIdx_length_append (front back : List α) (a : α) :
    (front ++ back).insertIdx front.length a = front ++ a :: back := by
  induction front with
  | nil => rfl
  | cons b front ih =>
      rw [List.cons_append, List.length_cons, List.insertIdx_succ_cons, ih, List.cons_append]

theorem eraseIdx_length_append (front back : List α) (a : α) :
    (front ++ a :: back).eraseIdx front.length = front ++ back := by
  rw [List.eraseIdx_append_of_length_le (Nat.le_refl _), Nat.sub_self, List.eraseIdx_cons_zero]

end

namespace Tensor

variable {K : Type}

def build (shape : List Nat) (entry : List Nat → K) : Tensor K where
  shape := shape
  -- Entries are stored in the order of their positions.
  data := (List.range shape.prod).map fun n => entry (indexAt shape n)
  size := by simp

@[simp] theorem build_shape (shape : List Nat) (entry : List Nat → K) :
    (build shape entry).shape = shape := rfl

variable [Zero K]

def get (x : Tensor K) (index : List Nat) : K := x.data.getD (position x.shape index) 0

theorem get_build {shape index : List Nat} (entry : List Nat → K) (within : Within index shape) :
    (build shape entry).get index = entry index := by
  have inside := position_lt within
  rw [get, build, List.getD_eq_getElem _ _ (by simpa using inside), List.getElem_map,
    List.getElem_range, indexAt_position within]

theorem ext_get {x y : Tensor K} (shape : x.shape = y.shape)
    (same : ∀ index, Within index x.shape → x.get index = y.get index) : x = y := by
  have data : x.data = y.data := by
    apply List.ext_getElem
    · rw [x.size, y.size, shape]
    intro n left right
    have below : n < x.shape.prod := x.size ▸ left
    -- Every position is some index's.
    have here := same (indexAt x.shape n) (within_indexAt below)
    rw [get, get, ← shape, position_indexAt below] at here
    rwa [List.getD_eq_getElem _ _ left, List.getD_eq_getElem _ _ right] at here
  obtain ⟨dims, entries, size⟩ := x
  obtain ⟨dims', entries', size'⟩ := y
  cases shape
  cases data
  rfl

def reshape (x : Tensor K) (shape : List Nat) : Option (Tensor K) :=
  if same : shape.prod = x.shape.prod then some ⟨shape, x.data, x.size.trans same.symm⟩ else none

theorem reshape_spec (x : Tensor K) (shape : List Nat) (same : shape.prod = x.shape.prod) :
    ∃ y, x.reshape shape = some y ∧ y.shape = shape ∧
      ∀ index source, position shape index = position x.shape source →
        y.get index = x.get source := by
  refine ⟨_, dif_pos same, rfl, fun index source meet => ?_⟩
  rw [get, get]
  exact congrArg (fun n => x.data.getD n 0) meet

theorem mergeAxes_spec {x : Tensor K} (front : List Nat) (m n : Nat) (back : List Nat)
    (shape : x.shape = front ++ m :: n :: back) :
    ∃ y, x.reshape (front ++ m * n :: back) = some y ∧ y.shape = front ++ m * n :: back ∧
      ∀ i p q j, i.length = front.length →
        y.get (i ++ (p * n + q) :: j) = x.get (i ++ p :: q :: j) := by
  obtain ⟨y, reshaped, yShape, entry⟩ :=
    x.reshape_spec (front ++ m * n :: back) (by rw [shape]; simp [Nat.mul_assoc])
  refine ⟨y, reshaped, yShape, fun i p q j rank => entry _ _ ?_⟩
  rw [shape, position_merge rank]

theorem splitAxis_spec {x : Tensor K} (front : List Nat) (m n : Nat) (back : List Nat)
    (shape : x.shape = front ++ m * n :: back) :
    ∃ y, x.reshape (front ++ m :: n :: back) = some y ∧ y.shape = front ++ m :: n :: back ∧
      ∀ i p q j, i.length = front.length →
        y.get (i ++ p :: q :: j) = x.get (i ++ (p * n + q) :: j) := by
  obtain ⟨y, reshaped, yShape, entry⟩ :=
    x.reshape_spec (front ++ m :: n :: back) (by rw [shape]; simp [Nat.mul_assoc])
  refine ⟨y, reshaped, yShape, fun i p q j rank => entry _ _ ?_⟩
  rw [shape, position_merge rank]

def alongAxis (x : Tensor K) (axis width : Nat) (source : Nat → Nat) : Tensor K :=
  build (x.shape.set axis width) fun index =>
    x.get (index.set axis (source (index.getD axis 0)))

theorem alongAxis_spec {x : Tensor K} (front : List Nat) (dim : Nat) (back : List Nat)
    (shape : x.shape = front ++ dim :: back) (width : Nat) (source : Nat → Nat) :
    (x.alongAxis front.length width source).shape = front ++ width :: back ∧
      ∀ i t j, Within i front → t < width → Within j back →
        (x.alongAxis front.length width source).get (i ++ t :: j) = x.get (i ++ source t :: j) := by
  have changed : x.shape.set front.length width = front ++ width :: back := by
    rw [shape, set_length_append]
  refine ⟨changed, fun i t j outer below inner => ?_⟩
  have within : Within (i ++ t :: j) (x.shape.set front.length width) :=
    changed ▸ within_append outer (.cons below inner)
  rw [alongAxis, get_build _ within, ← outer.length_eq, set_length_append, getD_length_append]

/-- `x[.., lo..hi, ..]` on one axis. -/
def slice (x : Tensor K) (axis : Nat) (lo hi : Int) : Option (Tensor K) :=
  if axis < x.shape.length ∧ 0 ≤ lo ∧ lo ≤ hi ∧ hi ≤ x.shape.getD axis 0 then
    some (x.alongAxis axis (hi - lo).toNat fun t => lo.toNat + t)
  else none

theorem slice_spec {x : Tensor K} (front : List Nat) (dim : Nat) (back : List Nat)
    (shape : x.shape = front ++ dim :: back) {lo hi : Int} (low : 0 ≤ lo) (ordered : lo ≤ hi)
    (inside : hi ≤ dim) :
    ∃ y, x.slice front.length lo hi = some y ∧ y.shape = front ++ (hi - lo).toNat :: back ∧
      ∀ i (t : Nat) j, Within i front → t < hi - lo → Within j back →
        y.get (i ++ t :: j) = x.get (i ++ (lo.toNat + t) :: j) := by
  have fits : front.length < x.shape.length ∧ 0 ≤ lo ∧ lo ≤ hi ∧
      hi ≤ x.shape.getD front.length 0 := by
    rw [shape]
    simp [low, ordered, inside]
  obtain ⟨changed, entry⟩ :=
    alongAxis_spec front dim back shape (hi - lo).toNat fun t => lo.toNat + t
  exact ⟨_, if_pos fits, changed, fun i t j outer below inner =>
    entry i t j outer (by omega) inner⟩

def takeAxis (x : Tensor K) (indices : List Int) (axis : Nat) : Option (Tensor K) :=
  if axis < x.shape.length ∧ ∀ n ∈ indices, 0 ≤ n ∧ n < x.shape.getD axis 0 then
    some (x.alongAxis axis indices.length fun t => (indices.getD t 0).toNat)
  else none

theorem takeAxis_spec {x : Tensor K} (front : List Nat) (dim : Nat) (back : List Nat)
    (shape : x.shape = front ++ dim :: back) (indices : List Int)
    (inside : ∀ n ∈ indices, 0 ≤ n ∧ n < dim) :
    ∃ y, x.takeAxis indices front.length = some y ∧
      y.shape = front ++ indices.length :: back ∧
      ∀ i t j, Within i front → t < indices.length → Within j back →
        y.get (i ++ t :: j) = x.get (i ++ (indices.getD t 0).toNat :: j) := by
  have fits : front.length < x.shape.length ∧
      ∀ n ∈ indices, 0 ≤ n ∧ n < x.shape.getD front.length 0 := by
    rw [shape]
    simpa using inside
  obtain ⟨changed, entry⟩ :=
    alongAxis_spec front dim back shape indices.length fun t => (indices.getD t 0).toNat
  exact ⟨_, if_pos fits, changed, entry⟩

/-- `x[.., n, ..]`, which drops the axis. -/
def select (x : Tensor K) (axis n : Nat) : Option (Tensor K) :=
  if axis < x.shape.length ∧ n < x.shape.getD axis 0 then
    some (build (x.shape.eraseIdx axis) fun index => x.get (index.insertIdx axis n))
  else none

theorem select_spec {x : Tensor K} (front : List Nat) (dim : Nat) (back : List Nat)
    (shape : x.shape = front ++ dim :: back) {n : Nat} (inside : n < dim) :
    ∃ y, x.select front.length n = some y ∧ y.shape = front ++ back ∧
      ∀ i j, Within i front → Within j back → y.get (i ++ j) = x.get (i ++ n :: j) := by
  have fits : front.length < x.shape.length ∧ n < x.shape.getD front.length 0 := by
    rw [shape]
    simp [inside]
  have changed : x.shape.eraseIdx front.length = front ++ back := by
    rw [shape, eraseIdx_length_append]
  refine ⟨_, if_pos fits, changed, fun i j outer inner => ?_⟩
  have within : Within (i ++ j) (x.shape.eraseIdx front.length) :=
    changed ▸ within_append outer inner
  rw [get_build _ within, ← outer.length_eq, insertIdx_length_append]

theorem select_eq_some_iff {x y : Tensor K} (front : List Nat) (dim : Nat) (back : List Nat)
    (shape : x.shape = front ++ dim :: back) {n : Nat} (inside : n < dim)
    (sliced : y.shape = front ++ back) :
    x.select front.length n = some y ↔
      ∀ i j, Within i front → Within j back → x.get (i ++ n :: j) = y.get (i ++ j) := by
  obtain ⟨slice, selected, sliceShape, entry⟩ := select_spec front dim back shape inside
  rw [selected, Option.some.injEq]
  constructor
  · rintro rfl i j outer inner
    exact (entry i j outer inner).symm
  · intro reads
    apply ext_get (sliceShape.trans sliced.symm)
    intro index within
    rw [sliceShape] at within
    obtain ⟨i, j, rfl, outer, inner⟩ := within_split within
    exact (entry i j outer inner).trans (reads i j outer inner)

end Tensor

end Stemd.Semantics
