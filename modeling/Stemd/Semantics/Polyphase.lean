import Mathlib.Algebra.BigOperators.Intervals
import Mathlib.Algebra.BigOperators.Ring.Finset
import Mathlib.Data.List.Basic
import Mathlib.Tactic.Linarith
import Mathlib.Tactic.Ring

/-! Rational resampling by a finite impulse response.

The signal is spread out by one factor, put through a prototype filter and thinned out by
another. Most of the products are with the zeros in between. The polyphase form leaves
them out: an output sample has a newest input sample that it reaches and a phase, and the
phase selects the branch of the prototype that its window is weighted with. -/

set_option autoImplicit false

namespace Stemd.Semantics.Polyphase

open Finset

variable {R : Type} [Semiring R]

def padded (xs : List R) (i : Int) : R := if 0 ≤ i then xs.getD i.toNat 0 else 0

@[simp] theorem padded_natCast (xs : List R) (i : Nat) : padded xs i = xs.getD i 0 := by
  simp [padded]

theorem padded_of_neg (xs : List R) {i : Int} (negative : i < 0) : padded xs i = 0 := by
  rw [padded, if_neg (by omega)]

theorem getD_of_le {xs : List R} {i : Nat} (outside : xs.length ≤ i) : xs.getD i 0 = 0 := by
  rw [List.getD_eq_getElem?_getD, List.getElem?_eq_none outside, Option.getD_none]

def fir (up down : Nat) (prototype signal : List R) (m : Nat) : R :=
  ∑ k ∈ range signal.length, signal.getD k 0 * padded prototype (down * m - up * k)

def newest (up down m : Nat) : Nat := m * down / up

def phase (up down m : Nat) : Nat := m * down % up

def window (up taps : Nat) (prototype signal : List R) (newest phase : Nat) : R :=
  ∑ j ∈ range taps, padded signal (newest - j) * prototype.getD (phase + up * j) 0

theorem phase_lt {up : Nat} (positive : 0 < up) (down m : Nat) : phase up down m < up :=
  Nat.mod_lt _ positive

theorem newest_phase (up down m : Nat) :
    m * down = up * newest up down m + phase up down m :=
  (Nat.div_add_mod _ _).symm

theorem next_phase {up down : Nat} (thinner : down < up) (m : Nat) :
    (newest up down (m + 1), phase up down (m + 1)) =
      if up ≤ phase up down m + down then
        (newest up down m + 1, phase up down m + down - up)
      else (newest up down m, phase up down m + down) := by
  have positive : 0 < up := by omega
  have below := phase_lt positive down m
  have here := newest_phase up down m
  have next : (m + 1) * down = up * newest up down m + (phase up down m + down) := by
    rw [Nat.succ_mul, here, Nat.add_assoc]
  rw [newest, phase, next, Nat.mul_add_div positive, Nat.mul_add_mod]
  split
  · rename_i carries
    rw [Nat.div_eq_of_lt_le (k := 1) (by omega) (by omega), Nat.mod_eq_sub_mod carries,
      Nat.mod_eq_of_lt (by omega)]
  · rename_i stays
    rw [Nat.div_eq_of_lt (by omega), Nat.mod_eq_of_lt (by omega), Nat.add_zero]

theorem padded_tap {up down m last r : Nat} (here : m * down = up * last + r) (below : r < up)
    (prototype : List R) (k : Nat) :
    padded prototype (down * m - up * k) =
      if k ≤ last then prototype.getD (r + up * (last - k)) 0 else 0 := by
  have cast : (down * m : Int) = up * last + r := by
    rw [mul_comm]
    exact_mod_cast here
  split
  · rename_i within
    have index : (down * m - up * k : Int) = ((r + up * (last - k) : Nat) : Int) := by
      rw [cast]
      push_cast [Nat.cast_sub within]
      ring
    rw [index, padded_natCast]
  · rename_i later
    have far : (up * (last + 1) : Int) ≤ up * k := by
      exact_mod_cast Nat.mul_le_mul_left up (show last + 1 ≤ k by omega)
    refine padded_of_neg _ ?_
    rw [cast]
    linarith [(by exact_mod_cast below : (r : Int) < up)]

/-- The products that the polyphase form leaves out are zero. -/
theorem fir_eq_window {up taps : Nat} {prototype : List R} (positive : 0 < up)
    (length : prototype.length = up * taps) (down : Nat) (signal : List R) (m : Nat) :
    fir up down prototype signal m =
      window up taps prototype signal (newest up down m) (phase up down m) := by
  have tap := padded_tap (newest_phase up down m) (phase_lt positive down m) prototype
  simp only [fir, window, tap]
  generalize newest up down m = last
  generalize phase up down m = r
  -- Both sums are over the input samples that are in the window and in the signal.
  have inWindow : ∀ k ∈ range signal.length,
      signal.getD k 0 * (if k ≤ last then prototype.getD (r + up * (last - k)) 0 else 0) ≠ 0 →
        k ≤ last ∧ last - k < taps := by
    intro k _ nonzero
    by_contra outside
    refine nonzero ?_
    split
    · rename_i within
      have far : up * taps ≤ up * (last - k) := Nat.mul_le_mul_left _ (by omega)
      have past : prototype.getD (r + up * (last - k)) 0 = 0 := getD_of_le (by omega)
      rw [past, mul_zero]
    · exact mul_zero _
  have inSignal : ∀ j ∈ range taps,
      padded signal (last - j) * prototype.getD (r + up * j) 0 ≠ 0 →
        j ≤ last ∧ last - j < signal.length := by
    intro j _ nonzero
    by_contra outside
    refine nonzero ?_
    by_cases before : last < j
    · rw [padded_of_neg _ (by omega), zero_mul]
    · rw [← Nat.cast_sub (by omega), padded_natCast, getD_of_le (by omega), zero_mul]
  rw [← sum_filter_of_ne inWindow, ← sum_filter_of_ne inSignal]
  refine sum_nbij' (last - ·) (last - ·) ?_ ?_ ?_ ?_ ?_
  · intro k member
    simp only [mem_filter, mem_range] at member ⊢
    omega
  · intro j member
    simp only [mem_filter, mem_range] at member ⊢
    omega
  · intro k member
    simp only [mem_filter, mem_range] at member
    omega
  · intro j member
    simp only [mem_filter, mem_range] at member
    omega
  · intro k member
    simp only [mem_filter, mem_range] at member
    have back : ((last : Int) - (last - k : Nat)) = (k : Int) := by omega
    rw [if_pos member.2.1, back, padded_natCast]

end Stemd.Semantics.Polyphase
