import Stemd.Semantics.TensorOps

/-! Convolutions of tensors whose channels are the last axis, and their transposes.

A weight holds, for every output channel, the taps of its window and in each tap one factor
for every input channel. Padding is zeros; a window that does not fit into the padded input
even once is refused. -/

set_option autoImplicit false

namespace Stemd.Semantics

def windows (n size stride padding dilation : Nat) : Option Nat :=
  if 0 < stride ∧ 0 < size ∧ dilation * (size - 1) + 1 ≤ n + 2 * padding then
    some ((n + 2 * padding - (dilation * (size - 1) + 1)) / stride + 1)
  else none

def tap (n stride padding dilation t j : Nat) : Option Nat :=
  let place := t * stride + j * dilation
  if padding ≤ place ∧ place < padding + n then some (place - padding) else none

theorem windows_same (n reach dilation : Nat) (nonempty : 0 < n) :
    windows n (1 + 2 * reach) 1 (dilation * reach) dilation = some n := by
  -- The window reaches as far over either end as the padding does.
  have width : dilation * (1 + 2 * reach - 1) = 2 * (dilation * reach) := by
    rw [Nat.add_sub_cancel_left]
    ring
  rw [windows, width, if_pos (by omega), Nat.div_one]
  congr 1
  omega

namespace Tensor

variable {K : Type} [Zero K] [Add K] [Mul K]

def total (n : Nat) (f : Nat → K) : K := ((List.range n).map f).sum

/-- `[B, L, in]` through `[out, k, in]`. -/
def conv1d (x w : Tensor K) (stride padding dilation : Nat) : Option (Tensor K) :=
  match x.shape, w.shape with
  | [rows, n, chin], [chout, size, taken] =>
      if taken = chin then
        (windows n size stride padding dilation).map fun count =>
          build [rows, count, chout] fun index =>
            let b := index.getD 0 0
            let o := index.getD 2 0
            total size fun j =>
              match tap n stride padding dilation (index.getD 1 0) j with
              | some i => total chin fun c => x.get [b, i, c] * w.get [o, j, c]
              | none => 0
      else none
  | _, _ => none

/-- `[B, H, W, in]` through `[out, kh, kw, in]`. -/
def conv2d (x w : Tensor K) (stride padding : Nat × Nat) : Option (Tensor K) :=
  match x.shape, w.shape with
  | [rows, high, wide, chin], [chout, sizeHigh, sizeWide, taken] =>
      match windows high sizeHigh stride.1 padding.1 1, windows wide sizeWide stride.2 padding.2 1
      with
      | some countHigh, some countWide =>
          if taken = chin then
            some (build [rows, countHigh, countWide, chout] fun index =>
              let b := index.getD 0 0
              let o := index.getD 3 0
              total sizeHigh fun j => total sizeWide fun k =>
                match tap high stride.1 padding.1 1 (index.getD 1 0) j,
                  tap wide stride.2 padding.2 1 (index.getD 2 0) k with
                | some i, some l => total chin fun c => x.get [b, i, l, c] * w.get [o, j, k, c]
                | _, _ => 0)
          else none
      | _, _ => none
  | _, _ => none

/-- `[B, L, in]` spread through `[out, k, in]`: entry `i` reaches `k` outputs from `i * stride`
on. -/
def convTranspose1d (x w : Tensor K) (stride : Nat) : Option (Tensor K) :=
  match x.shape, w.shape with
  | [rows, n, chin], [chout, size, taken] =>
      if taken = chin ∧ 0 < n then
        some (build [rows, (n - 1) * stride + size, chout] fun index =>
          let b := index.getD 0 0
          let o := index.getD 2 0
          total n fun i => total size fun j =>
            -- Every input entry adds to the outputs its taps land on.
            if i * stride + j = index.getD 1 0 then
              total chin fun c => x.get [b, i, c] * w.get [o, j, c]
            else 0)
      else none
  | _, _ => none

/-- `[B, H, W, in]` spread through `[out, kh, kw, in]`. -/
def convTranspose2d (x w : Tensor K) (stride : Nat × Nat) : Option (Tensor K) :=
  match x.shape, w.shape with
  | [rows, high, wide, chin], [chout, sizeHigh, sizeWide, taken] =>
      if taken = chin ∧ 0 < high ∧ 0 < wide then
        some (build [rows, (high - 1) * stride.1 + sizeHigh, (wide - 1) * stride.2 + sizeWide,
            chout] fun index =>
          let b := index.getD 0 0
          let o := index.getD 3 0
          total high fun i => total wide fun l =>
            total sizeHigh fun j => total sizeWide fun k =>
              if i * stride.1 + j = index.getD 1 0 ∧ l * stride.2 + k = index.getD 2 0 then
                total chin fun c => x.get [b, i, l, c] * w.get [o, j, k, c]
              else 0)
      else none
  | _, _ => none

theorem conv1d_shape {x w : Tensor K} {rows n chin chout size stride padding dilation count : Nat}
    (shape : x.shape = [rows, n, chin]) (weight : w.shape = [chout, size, chin])
    (fits : windows n size stride padding dilation = some count) :
    ∃ y, x.conv1d w stride padding dilation = some y ∧ y.shape = [rows, count, chout] := by
  simp only [conv1d, shape, weight, fits, if_true, Option.map_some]
  exact ⟨_, rfl, rfl⟩

example : (conv1d ⟨[1, 4, 1], [1, 2, 3, 4], rfl⟩ ⟨[1, 2, 1], [1, 10], rfl⟩ 2 1 1).map Tensor.data =
    some [10, 32, 4] := by decide

theorem conv2d_shape {x w : Tensor K}
    {rows high wide chin chout sizeHigh sizeWide countHigh countWide : Nat}
    {stride padding : Nat × Nat} (shape : x.shape = [rows, high, wide, chin])
    (weight : w.shape = [chout, sizeHigh, sizeWide, chin])
    (fitsHigh : windows high sizeHigh stride.1 padding.1 1 = some countHigh)
    (fitsWide : windows wide sizeWide stride.2 padding.2 1 = some countWide) :
    ∃ y, x.conv2d w stride padding = some y ∧ y.shape = [rows, countHigh, countWide, chout] := by
  simp only [conv2d, shape, weight, fitsHigh, fitsWide, if_true]
  exact ⟨_, rfl, rfl⟩

theorem convTranspose1d_shape {x w : Tensor K} {rows n chin chout size : Nat} (stride : Nat)
    (shape : x.shape = [rows, n, chin]) (weight : w.shape = [chout, size, chin])
    (nonempty : 0 < n) :
    ∃ y, x.convTranspose1d w stride = some y ∧
      y.shape = [rows, (n - 1) * stride + size, chout] := by
  simp only [convTranspose1d, shape, weight, nonempty, and_self, if_true]
  exact ⟨_, rfl, rfl⟩

example : (convTranspose1d ⟨[1, 2, 1], [1, 2], rfl⟩ ⟨[1, 3, 1], [1, 10, 100], rfl⟩ 2).map
    Tensor.data = some [1, 10, 102, 20, 200] := by decide

theorem convTranspose2d_shape {x w : Tensor K} {rows high wide chin chout sizeHigh sizeWide : Nat}
    (stride : Nat × Nat) (shape : x.shape = [rows, high, wide, chin])
    (weight : w.shape = [chout, sizeHigh, sizeWide, chin]) (tall : 0 < high) (broad : 0 < wide) :
    ∃ y, x.convTranspose2d w stride = some y ∧
      y.shape = [rows, (high - 1) * stride.1 + sizeHigh, (wide - 1) * stride.2 + sizeWide,
        chout] := by
  simp only [convTranspose2d, shape, weight, tall, broad, and_self, if_true]
  exact ⟨_, rfl, rfl⟩

/-- `reshape` with one axis left to be inferred, between the given ones. -/
def reshapeInfer (x : Tensor K) (before after : List Nat) : Option (Tensor K) :=
  let given := before.prod * after.prod
  if given = 0 then none
  else if x.shape.prod % given = 0 then x.reshape (before ++ x.shape.prod / given :: after)
  else none

omit [Zero K] [Add K] [Mul K] in
theorem reshapeInfer_eq (x : Tensor K) {before after : List Nat} {n : Nat}
    (given : 0 < before.prod * after.prod)
    (size : x.shape.prod = before.prod * after.prod * n) :
    x.reshapeInfer before after = x.reshape (before ++ n :: after) := by
  simp only [reshapeInfer, size, Nat.mul_mod_right, Nat.mul_div_cancel_left n given]
  rw [if_neg (by omega), if_pos trivial]

end Tensor

end Stemd.Semantics
