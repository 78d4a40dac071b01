import Mathlib.Data.List.Perm.Basic
import Stemd.Semantics.Tensor

/-! Padding, joining, permuting and combining tensors, as mlx documents it, an array library from
elsewhere.

The specifications of an operation on the last axis leave the leading axes open, so that one
lemma serves arrays of every rank. -/

set_option autoImplicit false

namespace Stemd.Semantics

namespace Tensor

variable {K : Type} [Zero K]

/-- The index that a padded index comes from, unless it is padding. -/
def unpad : List (Int × Int) → List Nat → List Nat → Option (List Nat)
  | around :: widths, dim :: dims, i :: index =>
      if around.1.toNat ≤ i ∧ i < around.1.toNat + dim then
        (unpad widths dims index).map ((i - around.1.toNat) :: ·)
      else none
  | _, _, _ => some []

def paddedShape (widths : List (Int × Int)) (shape : List Nat) : List Nat :=
  shape.zipWith (fun dim around => around.1.toNat + dim + around.2.toNat) widths

def pad (x : Tensor K) (widths : List (Int × Int)) : Option (Tensor K) :=
  if widths.length = x.shape.length ∧ ∀ around ∈ widths, 0 ≤ around.1 ∧ 0 ≤ around.2 then
    some (build (paddedShape widths x.shape) fun index =>
      ((unpad widths x.shape index).map x.get).getD 0)
  else none

theorem pad_spec {x : Tensor K} {widths : List (Int × Int)}
    (rank : widths.length = x.shape.length)
    (nonneg : ∀ around ∈ widths, 0 ≤ around.1 ∧ 0 ≤ around.2) :
    ∃ y, x.pad widths = some y ∧ y.shape = paddedShape widths x.shape ∧
      ∀ index, Within index (paddedShape widths x.shape) →
        y.get index = ((unpad widths x.shape index).map x.get).getD 0 :=
  ⟨_, if_pos ⟨rank, nonneg⟩, rfl, fun _ within => get_build _ within⟩

theorem unpad_lead {lead index : List Nat} (within : Within index lead)
    (widths : List (Int × Int)) (dims rest : List Nat) :
    unpad (List.replicate lead.length (0, 0) ++ widths) (lead ++ dims) (index ++ rest) =
      (unpad widths dims rest).map (index ++ ·) := by
  induction within with
  | nil => simp
  | @cons i dim index lead below _ ih =>
      simp only [List.length_cons, List.replicate_succ, List.cons_append, unpad, ih]
      simp [below, Option.map_map, Function.comp_def]

theorem paddedShape_lead (lead : List Nat) (widths : List (Int × Int)) (dims : List Nat) :
    paddedShape (List.replicate lead.length (0, 0) ++ widths) (lead ++ dims) =
      lead ++ paddedShape widths dims := by
  induction lead with
  | nil => rfl
  | cons dim lead ih =>
      simp only [paddedShape, List.length_cons, List.replicate_succ, List.cons_append,
        List.zipWith_cons_cons] at ih ⊢
      rw [ih]
      simp

theorem padLast_spec {x : Tensor K} (lead : List Nat) (dim : Nat)
    (shape : x.shape = lead ++ [dim]) {left right : Int} (before : 0 ≤ left) (after : 0 ≤ right) :
    ∃ y, x.pad (List.replicate lead.length (0, 0) ++ [(left, right)]) = some y ∧
      y.shape = lead ++ [left.toNat + dim + right.toNat] ∧
      ∀ i (t : Nat), Within i lead → t < left + dim + right →
        y.get (i ++ [t]) =
          if left ≤ t ∧ t < left + dim then x.get (i ++ [t - left.toNat]) else 0 := by
  have nonneg : ∀ around ∈ List.replicate lead.length ((0, 0) : Int × Int) ++ [(left, right)],
      0 ≤ around.1 ∧ 0 ≤ around.2 := by
    intro around member
    rcases List.mem_append.mp member with front | last
    · rw [List.eq_of_mem_replicate front]
      exact ⟨le_refl _, le_refl _⟩
    · rw [List.mem_singleton.mp last]
      exact ⟨before, after⟩
  obtain ⟨y, padded, changed, entry⟩ := pad_spec (by rw [shape]; simp) nonneg
  rw [shape, paddedShape_lead] at changed entry
  refine ⟨y, padded, changed, fun i t outer below => ?_⟩
  rw [entry _ (within_append outer (.cons (by dsimp only; omega) .nil)), unpad_lead outer]
  simp only [unpad]
  -- Integers where the code has them, and naturals where the array has.
  by_cases inside : left ≤ t ∧ t < left + dim
  · rw [if_pos inside, if_pos (by omega)]
    rfl
  · rw [if_neg inside, if_neg (by omega)]
    rfl

def locate : List Nat → Nat → Nat × Nat
  | [], n => (0, n)
  | width :: rest, n =>
      if n < width then (0, n) else ((locate rest (n - width)).1 + 1, (locate rest (n - width)).2)

theorem locate_inside {widths : List Nat} {n : Nat} (below : n < widths.sum) :
    ∃ width, widths[(locate widths n).1]? = some width ∧ (locate widths n).2 < width ∧
      (widths.take (locate widths n).1).sum + (locate widths n).2 = n := by
  induction widths generalizing n with
  | nil => simp at below
  | cons first rest ih =>
      rw [List.sum_cons] at below
      rw [locate]
      split
      · next early => exact ⟨first, rfl, early, by simp⟩
      · next late =>
          obtain ⟨width, at_k, inner, total⟩ := ih (n := n - first) (by omega)
          refine ⟨width, at_k, inner, ?_⟩
          rw [List.take_succ_cons, List.sum_cons]
          dsimp only
          omega

theorem locate_spec {widths : List Nat} {k width : Nat} (at_k : widths[k]? = some width) {t : Nat}
    (below : t < width) : locate widths ((widths.take k).sum + t) = (k, t) := by
  induction widths generalizing k with
  | nil => cases at_k
  | cons first rest ih =>
      cases k with
      | zero =>
          cases at_k
          simp [locate, below]
      | succ k =>
          have inner := ih at_k
          -- The first width is passed and taken off.
          have past : first + (rest.take k).sum + t - first = (rest.take k).sum + t := by omega
          simp only [List.take_succ_cons, List.sum_cons, locate, past, inner]
          rw [if_neg (by omega)]

def concatAxis (parts : List (Tensor K)) (axis : Nat) : Option (Tensor K) :=
  match parts with
  | [] => none
  | first :: _ =>
      if axis < first.shape.length ∧ ∀ part ∈ parts, part.shape.set axis 0 = first.shape.set axis 0
      then
        let widths := parts.map fun part => part.shape.getD axis 0
        some (build (first.shape.set axis widths.sum) fun index =>
          (parts.getD (locate widths (index.getD axis 0)).1 first).get
            (index.set axis (locate widths (index.getD axis 0)).2))
      else none

theorem concatAxis_spec (parts : List (Tensor K)) (front widths back : List Nat)
    (nonempty : parts ≠ [])
    (shapes : List.Forall₂ (fun part width => part.shape = front ++ width :: back) parts widths) :
    ∃ y, concatAxis parts front.length = some y ∧ y.shape = front ++ widths.sum :: back ∧
      ∀ (k width : Nat) (part : Tensor K), widths[k]? = some width → parts[k]? = some part →
        ∀ i t j, Within i front → t < width → Within j back →
          y.get (i ++ ((widths.take k).sum + t) :: j) = part.get (i ++ t :: j) := by
  have measured : (parts.map fun part => part.shape.getD front.length 0) = widths := by
    induction shapes with
    | nil => rfl
    | @cons part width parts widths shape rest ih =>
        rw [List.map_cons, shape, getD_length_append]
        cases parts with
        | nil => cases rest; rfl
        | cons => rw [ih (by simp)]
  have shaped : ∀ part ∈ parts, ∃ width, part.shape = front ++ width :: back := by
    clear nonempty measured
    induction shapes with
    | nil => simp
    | cons shape _ ih =>
        intro part member
        rcases List.mem_cons.mp member with rfl | later
        · exact ⟨_, shape⟩
        · exact ih part later
  cases parts with
  | nil => exact absurd rfl nonempty
  | cons first rest =>
      obtain ⟨width, shape⟩ := shaped first List.mem_cons_self
      have fits : front.length < first.shape.length ∧ ∀ part ∈ first :: rest,
          part.shape.set front.length 0 = first.shape.set front.length 0 := by
        refine ⟨by rw [shape]; simp, fun part member => ?_⟩
        obtain ⟨width', shape'⟩ := shaped part member
        rw [shape, shape', set_length_append, set_length_append]
      have changed : first.shape.set front.length widths.sum = front ++ widths.sum :: back := by
        rw [shape, set_length_append]
      refine ⟨_, if_pos fits, by rw [build_shape, measured, changed], ?_⟩
      intro k width part at_k here i t j outer below inner
      have within : Within (i ++ ((widths.take k).sum + t) :: j)
          (first.shape.set front.length widths.sum) := by
        rw [changed]
        refine within_append outer (.cons ?_ inner)
        -- Room for a place of part `k` comes from the parts before it and its own width.
        have split : widths.sum = (widths.take k).sum + (widths.drop k).sum := by
          rw [← List.sum_append, List.take_append_drop]
        have ahead : widths.drop k = width :: widths.drop (k + 1) := by
          obtain ⟨bound, is⟩ := List.getElem?_eq_some_iff.mp at_k
          rw [List.drop_eq_getElem_cons bound, is]
        rw [split, ahead, List.sum_cons]
        omega
      rw [measured, get_build _ within, ← outer.length_eq, getD_length_append,
        locate_spec at_k below, set_length_append, List.getD_eq_getElem?_getD, here]
      rfl

def stackAxis (parts : List (Tensor K)) (axis : Nat) : Option (Tensor K) :=
  match parts with
  | [] => none
  | first :: _ =>
      if axis ≤ first.shape.length ∧ ∀ part ∈ parts, part.shape = first.shape then
        some (build (first.shape.insertIdx axis parts.length) fun index =>
          (parts.getD (index.getD axis 0) first).get (index.eraseIdx axis))
      else none

theorem stackAxis_spec {parts : List (Tensor K)} (front back : List Nat) (nonempty : parts ≠ [])
    (shapes : ∀ part ∈ parts, part.shape = front ++ back) :
    ∃ y, stackAxis parts front.length = some y ∧ y.shape = front ++ parts.length :: back ∧
      ∀ (k : Nat) (part : Tensor K), parts[k]? = some part →
        ∀ i j, Within i front → Within j back → y.get (i ++ k :: j) = part.get (i ++ j) := by
  cases parts with
  | nil => exact absurd rfl nonempty
  | cons first rest =>
      have shape := shapes first List.mem_cons_self
      have fits : front.length ≤ first.shape.length ∧
          ∀ part ∈ first :: rest, part.shape = first.shape :=
        ⟨by rw [shape]; simp, fun part member => (shapes part member).trans shape.symm⟩
      have changed : first.shape.insertIdx front.length (first :: rest).length =
          front ++ (first :: rest).length :: back := by
        rw [shape, insertIdx_length_append]
      refine ⟨_, if_pos fits, changed, fun k part here i j outer inner => ?_⟩
      obtain ⟨bound, -⟩ := List.getElem?_eq_some_iff.mp here
      have within : Within (i ++ k :: j)
          (first.shape.insertIdx front.length (first :: rest).length) :=
        changed ▸ within_append outer (.cons bound inner)
      rw [get_build _ within, ← outer.length_eq, getD_length_append, eraseIdx_length_append,
        List.getD_eq_getElem?_getD, here]
      rfl

/-- The axes in another order: axis `n` of the result is axis `axes[n]`. -/
def transposeAxes (x : Tensor K) (axes : List Nat) : Option (Tensor K) :=
  if axes.Perm (List.range x.shape.length) then
    some (build (axes.map fun axis => x.shape.getD axis 0) fun index =>
      x.get ((List.range axes.length).map fun axis => index.getD (axes.idxOf axis) 0))
  else none

theorem transposeAxes_spec {x : Tensor K} {axes : List Nat}
    (order : axes.Perm (List.range x.shape.length)) :
    ∃ y, x.transposeAxes axes = some y ∧ y.shape = axes.map (fun axis => x.shape.getD axis 0) ∧
      ∀ index, Within index (axes.map fun axis => x.shape.getD axis 0) → y.get index =
        x.get ((List.range axes.length).map fun axis => index.getD (axes.idxOf axis) 0) :=
  ⟨_, if_pos order, rfl, fun _ within => get_build _ within⟩

theorem transposeMiddle_spec {x : Tensor K} {a b c d : Nat} (shape : x.shape = [a, b, c, d]) :
    ∃ y, x.transposeAxes [0, 2, 1, 3] = some y ∧ y.shape = [a, c, b, d] ∧
      ∀ i j k l, i < a → j < b → k < c → l < d → y.get [i, k, j, l] = x.get [i, j, k, l] := by
  have rank : x.shape.length = 4 := by rw [shape]; rfl
  have order : [0, 2, 1, 3].Perm (List.range x.shape.length) := by
    rw [rank]
    decide
  obtain ⟨y, transposed, yShape, entry⟩ := transposeAxes_spec order
  have axes : [0, 2, 1, 3].map (fun axis => x.shape.getD axis 0) = [a, c, b, d] := by
    rw [shape]
    rfl
  rw [axes] at yShape entry
  refine ⟨y, transposed, yShape, fun i j k l first second third fourth => ?_⟩
  exact entry _ (.cons first (.cons third (.cons second (.cons fourth .nil))))

def exchange {α : Type} (default : α) (a b : Nat) (l : List α) : List α :=
  (l.set a (l.getD b default)).set b (l.getD a default)

def swapAxes (x : Tensor K) (a b : Nat) : Option (Tensor K) :=
  if a < x.shape.length ∧ b < x.shape.length then
    some (build (exchange 0 a b x.shape) fun index => x.get (exchange 0 a b index))
  else none

theorem exchange_last {α : Type} (default : α) (front : List α) (p q : α) :
    exchange default front.length (front.length + 1) (front ++ [p, q]) = front ++ [q, p] := by
  simp [exchange, List.set_append_right]

theorem swapLast_spec {x : Tensor K} (lead : List Nat) (p q : Nat)
    (shape : x.shape = lead ++ [p, q]) :
    ∃ y, x.swapAxes lead.length (lead.length + 1) = some y ∧ y.shape = lead ++ [q, p] ∧
      ∀ i m n, Within i lead → m < q → n < p → y.get (i ++ [m, n]) = x.get (i ++ [n, m]) := by
  have fits : lead.length < x.shape.length ∧ lead.length + 1 < x.shape.length := by
    rw [shape]
    simp
  have changed : exchange 0 lead.length (lead.length + 1) x.shape = lead ++ [q, p] := by
    rw [shape, exchange_last]
  refine ⟨_, if_pos fits, changed, fun i m n outer inner inner' => ?_⟩
  have within : Within (i ++ [m, n]) (exchange 0 lead.length (lead.length + 1) x.shape) :=
    changed ▸ within_append outer (.cons inner (.cons inner' .nil))
  rw [get_build _ within, ← outer.length_eq, exchange_last]

/-- The shape two shapes stretch to, last axis first: an axis of length one takes any length,
and missing leading axes count as one. -/
def stretch : List Nat → List Nat → Option (List Nat)
  | [], dims => some dims
  | dims, [] => some dims
  | a :: left, b :: right =>
      if a = b ∨ b = 1 then (stretch left right).map (a :: ·)
      else if a = 1 then (stretch left right).map (b :: ·)
      else none

def broadcast (left right : List Nat) : Option (List Nat) :=
  (stretch left.reverse right.reverse).map List.reverse

def align (dims index : List Nat) : List Nat :=
  dims.zipWith (fun dim i => if dim = 1 then 0 else i) (index.drop (index.length - dims.length))

theorem stretch_self (dims : List Nat) : stretch dims dims = some dims := by
  induction dims with
  | nil => rfl
  | cons dim dims ih => simp [stretch, ih]

theorem broadcast_self (dims : List Nat) : broadcast dims dims = some dims := by
  simp [broadcast, stretch_self]

theorem align_append (index : List Nat) {dims rest : List Nat} (same : rest.length = dims.length) :
    align dims (index ++ rest) = align dims rest := by
  simp [align, same]

theorem align_self {dims index : List Nat} (within : Within index dims) :
    align dims index = index := by
  rw [align, within.length_eq, Nat.sub_self, List.drop_zero]
  induction within with
  | nil => rfl
  | @cons i dim _ _ below _ ih =>
      rw [List.zipWith_cons_cons, ih]
      split
      · rw [show i = 0 by omega]
      · rfl

/-- Entry by entry, stretching the operands to one shape. -/
def zipWith {L M : Type} [Zero L] (f : K → L → M) (x : Tensor K) (y : Tensor L) :
    Option (Tensor M) :=
  (broadcast x.shape y.shape).map fun shape =>
    build shape fun index => f (x.get (align x.shape index)) (y.get (align y.shape index))

theorem zipWith_spec {L M : Type} [Zero L] [Zero M] (f : K → L → M) {x : Tensor K} {y : Tensor L}
    {shape : List Nat} (fits : broadcast x.shape y.shape = some shape) :
    ∃ z, x.zipWith f y = some z ∧ z.shape = shape ∧ ∀ index, Within index shape →
      z.get index = f (x.get (align x.shape index)) (y.get (align y.shape index)) :=
  ⟨_, by rw [zipWith, fits]; rfl, rfl, fun _ within => get_build _ within⟩

theorem zipWith_self_spec {L M : Type} [Zero L] [Zero M] (f : K → L → M) {x : Tensor K}
    {y : Tensor L} (same : y.shape = x.shape) :
    ∃ z, x.zipWith f y = some z ∧ z.shape = x.shape ∧
      ∀ index, Within index x.shape → z.get index = f (x.get index) (y.get index) := by
  obtain ⟨z, zipped, shape, entry⟩ :=
    zipWith_spec f (x := x) (y := y) (by rw [same, broadcast_self])
  refine ⟨z, zipped, shape, fun index within => ?_⟩
  rw [entry index within, same, align_self within]

def broadcastTo (x : Tensor K) (shape : List Nat) : Option (Tensor K) :=
  if broadcast x.shape shape = some shape then
    some (build shape fun index => x.get (align x.shape index))
  else none

theorem broadcastTo_spec {x : Tensor K} {shape : List Nat}
    (fits : broadcast x.shape shape = some shape) :
    ∃ y, x.broadcastTo shape = some y ∧ y.shape = shape ∧
      ∀ index, Within index shape → y.get index = x.get (align x.shape index) :=
  ⟨_, if_pos fits, rfl, fun _ within => get_build _ within⟩

omit [Zero K] in
def map {L : Type} (f : K → L) (x : Tensor K) : Tensor L where
  shape := x.shape
  data := x.data.map f
  size := by rw [List.length_map, x.size]

omit [Zero K] in
@[simp] theorem map_shape {L : Type} (f : K → L) (x : Tensor K) : (x.map f).shape = x.shape := rfl

theorem get_map {L : Type} [Zero L] (f : K → L) {x : Tensor K} {index : List Nat}
    (within : Within index x.shape) : (x.map f).get index = f (x.get index) := by
  have inside : position x.shape index < x.data.length := x.size ▸ position_lt within
  have inside' : position x.shape index < (x.data.map f).length := by rwa [List.length_map]
  change (x.data.map f).getD (position x.shape index) 0 = f (x.data.getD _ 0)
  rw [List.getD_eq_getElem _ _ inside, List.getD_eq_getElem _ _ inside', List.getElem_map]

def row (x : Tensor K) (index : List Nat) : List K :=
  (List.range (x.shape.getLastD 0)).map fun t => x.get (index ++ [t])

/-- A function of the last axis, applied to every row. -/
def mapRows {L : Type} [Zero L] (width : Nat) (f : List K → List L) (x : Tensor K) : Tensor L :=
  build (x.shape.dropLast ++ [width]) fun index =>
    (f (x.row index.dropLast)).getD (index.getLastD 0) 0

theorem mapRows_spec {L : Type} [Zero L] {x : Tensor K} (lead : List Nat) (dim : Nat)
    (shape : x.shape = lead ++ [dim]) (width : Nat) (f : List K → List L) :
    (x.mapRows width f).shape = lead ++ [width] ∧ ∀ i t, Within i lead → t < width →
      (x.mapRows width f).get (i ++ [t]) = (f (x.row i)).getD t 0 := by
  have changed : x.shape.dropLast ++ [width] = lead ++ [width] := by
    rw [shape, List.dropLast_concat]
  refine ⟨changed, fun i t outer below => ?_⟩
  have within : Within (i ++ [t]) (x.shape.dropLast ++ [width]) :=
    changed ▸ within_append outer (.cons below .nil)
  rw [mapRows, get_build _ within, List.dropLast_concat, List.getLastD_concat]

theorem row_eq {x : Tensor K} (lead : List Nat) (dim : Nat) (shape : x.shape = lead ++ [dim])
    (index : List Nat) : x.row index = (List.range dim).map fun t => x.get (index ++ [t]) := by
  rw [row, shape, List.getLastD_concat]

theorem row_length {x : Tensor K} (lead : List Nat) (dim : Nat) (shape : x.shape = lead ++ [dim])
    (index : List Nat) : (x.row index).length = dim := by
  rw [row_eq lead dim shape, List.length_map, List.length_range]

def matmul [Add K] [Mul K] (x w : Tensor K) : Option (Tensor K) :=
  match w.shape with
  | [chin, chout] =>
      if x.shape.getLast? = some chin then
        some (x.mapRows chout fun values => (List.range chout).map fun o =>
          ((List.range chin).map fun k => values.getD k 0 * w.get [k, o]).sum)
      else none
  | _ => none

theorem matmul_spec [Add K] [Mul K] {x w : Tensor K} (lead : List Nat) {chin chout : Nat}
    (shape : x.shape = lead ++ [chin]) (matrix : w.shape = [chin, chout]) :
    ∃ y, x.matmul w = some y ∧ y.shape = lead ++ [chout] ∧
      ∀ i o, Within i lead → o < chout → y.get (i ++ [o]) =
        ((List.range chin).map fun k => (x.row i).getD k 0 * w.get [k, o]).sum := by
  obtain ⟨yShape, yEntry⟩ := mapRows_spec lead chin shape chout fun values =>
    (List.range chout).map fun o =>
      ((List.range chin).map fun k => values.getD k 0 * w.get [k, o]).sum
  refine ⟨_, ?_, yShape, fun i o outer below => ?_⟩
  · rw [matmul, matrix]
    exact if_pos (by rw [shape, List.getLast?_concat])
  · rw [yEntry i o outer below, List.getD_eq_getElem _ _ (by simpa using below), List.getElem_map,
      List.getElem_range]

theorem stretch_nil (dims : List Nat) : stretch dims [] = some dims := by
  cases dims <;> rfl

theorem broadcast_last (lead : List Nat) (dim : Nat) :
    broadcast (lead ++ [dim]) [dim] = some (lead ++ [dim]) := by
  simp [broadcast, stretch, stretch_nil]

theorem align_last {dim t : Nat} (index : List Nat) (below : t < dim) :
    align [dim] (index ++ [t]) = [t] := by
  -- On an axis of length one there is only entry zero.
  have only : (if dim = 1 then 0 else t) = t := by
    split <;> omega
  rw [align_append index (by rfl)]
  simp [align, only]

theorem within_one {index : List Nat} {a : Nat} (within : Within index [a]) :
    ∃ i, index = [i] ∧ i < a := by
  obtain ⟨i, none, first, ended, rfl⟩ := List.forall₂_cons_right_iff.mp within
  cases ended
  exact ⟨i, rfl, first⟩

theorem within_two {index : List Nat} {a b : Nat} (within : Within index [a, b]) :
    ∃ i j, index = [i, j] ∧ i < a ∧ j < b := by
  obtain ⟨i, last, first, single, rfl⟩ := List.forall₂_cons_right_iff.mp within
  obtain ⟨j, none, second, ended, rfl⟩ := List.forall₂_cons_right_iff.mp single
  cases ended
  exact ⟨i, j, rfl, first, second⟩

theorem within_three {index : List Nat} {a b c : Nat} (within : Within index [a, b, c]) :
    ∃ i j k, index = [i, j, k] ∧ i < a ∧ j < b ∧ k < c := by
  obtain ⟨i, after, first, others, rfl⟩ := List.forall₂_cons_right_iff.mp within
  obtain ⟨j, last, second, single, rfl⟩ := List.forall₂_cons_right_iff.mp others
  obtain ⟨k, none, third, ended, rfl⟩ := List.forall₂_cons_right_iff.mp single
  cases ended
  exact ⟨i, j, k, rfl, first, second, third⟩

def strided (strides : List Int) (offset : Int) (index : List Nat) : Int :=
  offset + (index.zipWith (fun i stride => (i : Int) * stride) strides).sum

/-- A view whose neighbours along each axis lie `strides` apart. -/
def asStrided (x : Tensor K) (shape : List Nat) (strides : List Int) (offset : Int) :
    Option (Tensor K) :=
  if ∀ n < shape.prod, 0 ≤ strided strides offset (indexAt shape n) ∧
      strided strides offset (indexAt shape n) < x.data.length then
    some (build shape fun index => x.data.getD (strided strides offset index).toNat 0)
  else none

theorem asStrided_frames {x : Tensor K} (rows width frames size hop : Nat)
    (shape : x.shape = [rows, width]) (inside : ∀ f < frames, f * hop + size ≤ width) :
    ∃ y, x.asStrided [rows, frames, size] [(width : Int), (hop : Int), 1] 0 = some y ∧
      y.shape = [rows, frames, size] ∧ ∀ r f t, r < rows → f < frames → t < size →
        y.get [r, f, t] = x.get [r, f * hop + t] := by
  -- A view of frames never leaves the row it is in, so it reads where a row index would.
  have place : ∀ r f t : Nat, strided [(width : Int), (hop : Int), 1] 0 [r, f, t] =
      (position x.shape [r, f * hop + t] : Nat) := by
    intro r f t
    simp [strided, shape, position]
  have fits : ∀ n < [rows, frames, size].prod,
      0 ≤ strided [(width : Int), (hop : Int), 1] 0 (indexAt [rows, frames, size] n) ∧
      strided [(width : Int), (hop : Int), 1] 0 (indexAt [rows, frames, size] n) <
        x.data.length := by
    intro n below
    obtain ⟨r, f, t, is, row, frame, sample⟩ := within_three (within_indexAt below)
    rw [is, place, x.size]
    refine ⟨Int.natCast_nonneg _, Int.ofNat_lt.mpr (position_lt ?_)⟩
    rw [shape]
    exact .cons row (.cons (by have := inside f frame; omega) .nil)
  refine ⟨_, if_pos fits, rfl, fun r f t row frame sample => ?_⟩
  rw [get_build _ (.cons row (.cons frame (.cons sample .nil))), place, Int.toNat_natCast]
  rfl

end Tensor

end Stemd.Semantics
