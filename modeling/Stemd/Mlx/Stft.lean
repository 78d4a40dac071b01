import Mathlib.Algebra.BigOperators.Ring.Finset
import Mathlib.Algebra.Field.Rat
import Mathlib.Algebra.Order.Field.Basic
import Mathlib.Algebra.Order.Ring.Rat
import Mathlib.Tactic.NormNum.OfScientific
import Stemd.Mlx.OverlapAdd

/-! The ordinary short-time transform: periodic Hann, centred, unnormalised.

A track is cut into overlapping windowed frames, each is transformed on its own, and the way
back adds the frames up and divides by the accumulated squared window. Sample arithmetic is
exact, and the transform of one frame is a parameter. -/

set_option autoImplicit false

namespace Stemd.Mlx

open Stemd.Semantics

structure Complex64 (K : Type) where
  re : K
  im : K
  deriving DecidableEq, Repr

instance {K : Type} [Zero K] : Zero (Complex64 K) := ⟨⟨0, 0⟩⟩

/-- `(a + bi)(c + di)` -/
def Complex64.mul {K : Type} [Add K] [Sub K] [Mul K] (z w : Complex64 K) : Complex64 K :=
  ⟨z.re * w.re - z.im * w.im, z.re * w.im + z.im * w.re⟩

def Complex64.add {K : Type} [Add K] (z w : Complex64 K) : Complex64 K :=
  ⟨z.re + w.re, z.im + w.im⟩

/-- `as_dtype(Complex64)` of a real value. -/
def Complex64.ofReal {K : Type} [Zero K] (v : K) : Complex64 K := ⟨v, 0⟩

theorem Complex64.together {K : Type} [Ring K] (re im : K) :
    (Complex64.ofReal re).add ((Complex64.ofReal im).mul ⟨0, 1⟩) = ⟨re, im⟩ := by
  simp [Complex64.ofReal, Complex64.add, Complex64.mul]

structure Fourier (K : Type) where
  rfft : List K → List (Complex64 K)
  irfft : Nat → List (Complex64 K) → List K
  rfft_length : ∀ samples, (rfft samples).length = samples.length / 2 + 1

def Fourier.Undoes {K : Type} (fourier : Fourier K) (n : Nat) : Prop :=
  ∀ samples : List K, samples.length = n → fourier.irfft n (fourier.rfft samples) = samples

structure Stft (K : Type) where
  nFft : Nat
  hop : Nat
  window : Tensor K
  windowShape : window.shape = [nFft]

section

variable {K : Type} [Zero K]

def mirrored (x : Tensor K) (axis : Nat) (count : Int) (indices : List Int) :
    Except SpectralError (List (Tensor K)) :=
  if count > 0 then (fitting (x.takeAxis indices axis)).map fun part => [part] else .ok []

/-- Reflect padding along the last axis, which does not repeat the edge sample. -/
def reflectPad (x : Tensor K) (left right : Int) : Except SpectralError (Tensor K) := do
  let (axis, n) ← lastAxis x
  if left ≥ n ∨ right ≥ n then throw (.reflect left right n)
  let before ← mirrored x axis left
    ((List.range left.toNat).map fun k : Nat => (1 : Int) + k).reverse
  let after ← mirrored x axis right
    ((List.range right.toNat).map fun k : Nat => (n : Int) - 1 - right + k).reverse
  fitting (Tensor.concatAxis (before ++ [x] ++ after) axis)

end

/-- A periodic Hann window: `0.5 - 0.5 * cos(2 * pi * i / n)`, given the cosine. -/
def hann {K : Type} [Field K] (cosine : Nat → Nat → K) (n : Nat) : Tensor K where
  shape := [n]
  data := (List.range n).map fun i => 0.5 - 0.5 * cosine i n
  size := by simp

def Stft.new {K : Type} [Field K] (cosine : Nat → Nat → K) (nFft hop : Nat) : Stft K where
  nFft := nFft
  hop := hop
  window := hann cosine nFft
  windowShape := rfl

section

variable {K : Type} [Field K]

def Stft.bins (stft : Stft K) : Nat := stft.nFft / 2 + 1

def Stft.centre (stft : Stft K) (x : Tensor K) (centred : Bool) :
    Except SpectralError (Tensor K) :=
  if centred then reflectPad x (stft.nFft / 2 : Nat) (stft.nFft / 2 : Nat) else .ok x

/-- `[..., T] -> [..., F, N]`, with `F = n_fft / 2 + 1`. -/
def Stft.forward (fourier : Fourier K) (stft : Stft K) (x : Tensor K) (centred : Bool) :
    Except SpectralError (Tensor (Complex64 K)) := do
  let x ← stft.centre x centred
  let (_, samples) ← lastAxis x
  if samples < stft.nFft then throw (.short samples stft.nFft)
  let frames := (samples - stft.nFft) / stft.hop + 1
  -- Flattened, so that the strides have one leading axis to step over.
  let lead := x.shape.dropLast
  let flat ← fitting (x.reshape [lead.prod, samples])
  let framed ← fitting (flat.asStrided [lead.prod, frames, stft.nFft]
    [(samples : Int), (stft.hop : Int), 1] 0)
  let windowed ← fitting (framed.zipWith (· * ·) stft.window)
  let spectrum := windowed.mapRows stft.bins fourier.rfft
  let outShape := lead ++ [frames, stft.bins]
  let spectrum ← fitting (spectrum.reshape outShape)
  fitting (spectrum.swapAxes (outShape.length - 2) (outShape.length - 1))

variable [LinearOrder K]

def normFloor : K := 1e-11

/-- Overlap-add, divided by the accumulated squared window, and cropped. -/
def normalised (window windowed : Tensor K) (frames nFft hop : Nat) (width pad length : Int)
    (outShape : List Nat) : Except SpectralError (Tensor K) := do
  let square ← fitting (window.zipWith (· * ·) window)
  let square ← fitting (square.reshape [1, 1, nFft])
  let squares ← fitting (square.broadcastTo [1, frames, nFft])
  let out ← overlapAdd windowed hop width
  let norm ← overlapAdd squares hop width
  let out ← fitting (out.slice 1 pad (pad + length))
  let norm ← fitting (norm.slice 1 pad (pad + length))
  let out ← fitting (out.zipWith (· / ·) (norm.map fun v => max v normFloor))
  fitting (out.reshape outShape)

/-- Inverse transforms of the columns of a spectrogram, windowed and added up again.
`prepare` is what is done to the columns first. -/
def invertFrames (fourier : Fourier K) (stft : Stft K)
    (prepare : Tensor (Complex64 K) → Except SpectralError (Tensor (Complex64 K)))
    (z : Tensor (Complex64 K)) (width : Nat → Int) (pad length : Int) :
    Except SpectralError (Tensor K) := do
  let [frames, bins] := z.shape.reverse.take 2 | throw .array
  let lead := z.shape.take (z.shape.length - 2)
  let flat ← fitting (z.reshape [lead.prod, bins, frames])
  let flat ← fitting (flat.swapAxes 1 2)
  let prepared ← prepare flat
  let framesTime := prepared.mapRows stft.nFft (fourier.irfft stft.nFft)
  let windowed ← fitting (framesTime.zipWith (· * ·) stft.window)
  normalised stft.window windowed frames stft.nFft stft.hop (width frames) pad length
    (lead ++ [length.toNat])

/-- `[..., F, N] -> [..., length]`, undoing the forward transform. -/
def Stft.inverse (fourier : Fourier K) (stft : Stft K) (z : Tensor (Complex64 K))
    (length : Int) (centred : Bool) : Except SpectralError (Tensor K) :=
  let pad : Int := if centred then (stft.nFft / 2 : Nat) else 0
  invertFrames fourier stft .ok z (fun _ => length + 2 * pad) pad length

end

/-- The sample a padded position mirrors. -/
def reflectIndex (left n t : Nat) : Nat :=
  if t < left then left - t else if t < left + n then t - left else 2 * n + left - 2 - t

section

variable {K : Type} [Zero K]

theorem mirrored_spec {x : Tensor K} {lead : List Nat} {n : Nat} (shape : x.shape = lead ++ [n])
    (count : Nat) (indices : List Int) (length : indices.length = count)
    (inside : ∀ k ∈ indices, 0 ≤ k ∧ k < n) :
    ∃ parts widths, mirrored x lead.length count indices = .ok parts ∧
      List.Forall₂ (fun part width => part.shape = lead ++ width :: []) parts widths ∧
      widths.sum = count ∧ (0 < count → ∃ part, parts = [part] ∧ widths = [count] ∧
        ∀ i t, Within i lead → t < count →
          part.get (i ++ [t]) = x.get (i ++ [(indices.getD t 0).toNat])) := by
  by_cases empty : count = 0
  · refine ⟨[], [], if_neg (by omega), .nil, by simp [empty], ?_⟩
    intro positive
    omega
  · obtain ⟨part, taken, partShape, entry⟩ := Tensor.takeAxis_spec lead n [] shape indices inside
    rw [length] at partShape entry
    refine ⟨[part], [count], ?_, .cons partShape .nil, by simp, fun _ => ?_⟩
    · rw [mirrored, if_pos (by omega), taken]
      rfl
    · exact ⟨part, rfl, rfl, fun i t outer below => entry i t [] outer below .nil⟩

theorem getD_reverse_range (m : Nat) (f : Nat → Int) {t : Nat} (below : t < m) :
    ((List.range m).map f).reverse.getD t 0 = f (m - 1 - t) := by
  rw [List.getD_eq_getElem _ _ (by simpa using below), List.getElem_reverse]
  simp

theorem reflectPad_spec {x : Tensor K} {lead : List Nat} {n left right : Nat}
    (shape : x.shape = lead ++ [n]) (before : left < n) (after : right < n) :
    ∃ y, reflectPad x left right = .ok y ∧ y.shape = lead ++ [left + n + right] ∧
      ∀ i t, Within i lead → t < left + n + right →
        y.get (i ++ [t]) = x.get (i ++ [reflectIndex left n t]) := by
  have inside : ∀ (m : Nat) (f : Nat → Int), (∀ j < m, 0 ≤ f j ∧ f j < n) →
      ∀ k ∈ ((List.range m).map f).reverse, 0 ≤ k ∧ k < n := by
    intro m f bounds k member
    obtain ⟨j, below, rfl⟩ := List.mem_map.mp (List.mem_reverse.mp member)
    exact bounds j (List.mem_range.mp below)
  obtain ⟨front, frontWidths, frontIs, frontShapes, frontSum, frontEntry⟩ :=
    mirrored_spec shape left ((List.range left).map fun k : Nat => (1 : Int) + k).reverse
      (by simp) (inside left _ fun j below => by omega)
  obtain ⟨back, backWidths, backIs, backShapes, backSum, backEntry⟩ :=
    mirrored_spec shape right
      ((List.range right).map fun k : Nat => (n : Int) - 1 - right + k).reverse
      (by simp) (inside right _ fun j below => by omega)
  obtain ⟨y, joined, joinedShape, joinedEntry⟩ :=
    Tensor.concatAxis_spec (front ++ [x] ++ back) lead (frontWidths ++ [n] ++ backWidths) []
      (by simp) (List.rel_append (List.rel_append frontShapes (.cons shape .nil)) backShapes)
  have frontLength := frontShapes.length_eq
  refine ⟨y, ?_, ?_, fun i t outer below => ?_⟩
  · simp only [reflectPad, lastAxis_eq shape, bind, Except.bind, Int.toNat_natCast]
    rw [if_neg (by omega)]
    simp only [frontIs, backIs, joined]
    rfl
  · rw [joinedShape]
    simp [frontSum, backSum, Nat.add_assoc]
  · unfold reflectIndex
    by_cases early : t < left
    · obtain ⟨part, rfl, rfl, entry⟩ := frontEntry (by omega)
      have here := joinedEntry 0 left part rfl rfl i t [] outer early .nil
      rw [if_pos early]
      rw [List.take_zero, List.sum_nil, Nat.zero_add] at here
      rw [here, entry i t outer early, getD_reverse_range left _ early]
      congr 3
      omega
    rw [if_neg early]
    by_cases middle : t < left + n
    · have here := joinedEntry front.length n x (by simp [frontLength]) (by simp) i (t - left) []
        outer (by omega) .nil
      rw [if_pos middle, ← here]
      congr 3
      rw [frontLength, List.append_assoc, List.take_left, frontSum]
      omega
    · obtain ⟨part, rfl, rfl, entry⟩ := backEntry (by omega)
      have here := joinedEntry (front.length + 1) right part (by simp [frontLength]) (by simp) i
        (t - left - n) [] outer (by omega) .nil
      rw [if_neg middle]
      have place : (List.take (front.length + 1) (frontWidths ++ [n] ++ [right])).sum +
          (t - left - n) = t := by
        have taken : List.take (front.length + 1) (frontWidths ++ [n] ++ [right]) =
            frontWidths ++ [n] := by
          rw [frontLength]
          exact List.take_left' (by simp)
        rw [taken, List.sum_append, frontSum, List.sum_singleton]
        omega
      rw [place] at here
      rw [here, entry i _ outer (by omega), getD_reverse_range right _ (by omega)]
      congr 3
      omega

end

def windowSum {K : Type} [Field K] (window : Tensor K) (nFft hop frames t : Nat) : K :=
  ∑ f ∈ Finset.range frames,
    if f * hop ≤ t ∧ t < f * hop + nFft then
      window.get [t - f * hop] * window.get [t - f * hop]
    else 0

section

variable {K : Type} [Field K]

theorem squares_spec {window : Tensor K} {nFft : Nat} (shape : window.shape = [nFft])
    (frames : Nat) :
    ∃ square flat squares, window.zipWith (· * ·) window = some square ∧
      square.reshape [1, 1, nFft] = some flat ∧
      flat.broadcastTo [1, frames, nFft] = some squares ∧ squares.shape = [1, frames, nFft] ∧
      ∀ f k, f < frames → k < nFft →
        squares.get [0, f, k] = window.get [k] * window.get [k] := by
  obtain ⟨square, multiplied, squareShape, squareEntry⟩ :=
    Tensor.zipWith_self_spec (· * ·) (rfl : window.shape = window.shape)
  rw [shape] at squareShape squareEntry
  obtain ⟨flat, reshaped, flatShape, flatEntry⟩ :=
    square.reshape_spec [1, 1, nFft] (by rw [squareShape]; simp)
  have fits : Tensor.broadcast flat.shape [1, frames, nFft] = some [1, frames, nFft] := by
    rw [flatShape]
    by_cases one : frames = 1
    · simp [Tensor.broadcast, Tensor.stretch, one]
    · simp [Tensor.broadcast, Tensor.stretch, one, Ne.symm one]
  obtain ⟨squares, stretched, squaresShape, squaresEntry⟩ := Tensor.broadcastTo_spec fits
  refine ⟨square, flat, squares, multiplied, reshaped, stretched, squaresShape, ?_⟩
  intro f k frame sample
  have aligned : Tensor.align [1, 1, nFft] [0, f, k] = [0, 0, k] := by
    have last : (if nFft = 1 then 0 else k) = k := by
      split <;> omega
    simp [Tensor.align, last]
  have place : position [1, 1, nFft] [0, 0, k] = position square.shape [k] := by
    rw [squareShape]
    simp [position]
  rw [squaresEntry [0, f, k] (.cons (by omega) (.cons frame (.cons sample .nil))), flatShape,
    aligned, flatEntry _ _ place, squareEntry [k] (.cons sample .nil)]

theorem normalised_spec [LinearOrder K] {window windowed : Tensor K}
    {rows frames nFft hop : Nat} (windowShape : window.shape = [nFft])
    (shape : windowed.shape = [rows, frames, nFft]) (nonempty : 0 < frames) (size : 0 < nFft)
    (hops : 0 < hop) {width pad length : Nat} (inside : pad + length ≤ width) (lead : List Nat)
    (leading : lead.prod = rows) :
    ∃ y, normalised window windowed frames nFft hop width pad length (lead ++ [length]) = .ok y ∧
      y.shape = lead ++ [length] ∧ ∀ i t, Within i lead → t < length → y.get (i ++ [t]) =
        (∑ f ∈ Finset.range frames,
            contribution windowed nFft hop (position lead i) f (pad + t)) /
          max (windowSum window nFft hop frames (pad + t)) normFloor := by
  obtain ⟨square, flat, squares, multiplied, reshaped, stretched, squaresShape, squaresEntry⟩ :=
    squares_spec windowShape frames
  obtain ⟨out, outIs, outShape, outEntry⟩ := overlapAdd_spec shape nonempty size hops width
  obtain ⟨norm, normIs, normShape, normEntry⟩ :=
    overlapAdd_spec squaresShape nonempty size hops width
  obtain ⟨outCut, outCutIs, outCutShape, outCutEntry⟩ :=
    Tensor.slice_spec [rows] width [] outShape (show (0 : Int) ≤ pad by omega)
      (show (pad : Int) ≤ pad + length by omega) (show (pad : Int) + length ≤ width by omega)
  obtain ⟨normCut, normCutIs, normCutShape, normCutEntry⟩ :=
    Tensor.slice_spec [1] width [] normShape (show (0 : Int) ≤ pad by omega)
      (show (pad : Int) ≤ pad + length by omega) (show (pad : Int) + length ≤ width by omega)
  have cut : ((pad : Int) + length - pad).toNat = length := by omega
  rw [cut] at outCutShape normCutShape
  have fits : Tensor.broadcast outCut.shape (normCut.map fun v => max v normFloor).shape =
      some [rows, length] := by
    rw [outCutShape, Tensor.map_shape, normCutShape]
    simp [Tensor.broadcast, Tensor.stretch]
  obtain ⟨quotient, divided, quotientShape, quotientEntry⟩ :=
    Tensor.zipWith_spec (· / ·) fits
  obtain ⟨y, flattened, yShape, yEntry⟩ :=
    quotient.reshape_spec (lead ++ [length]) (by rw [quotientShape]; simp [leading])
  have outCutIs' : out.slice 1 pad (pad + length) = some outCut := outCutIs
  have normCutIs' : norm.slice 1 pad (pad + length) = some normCut := normCutIs
  refine ⟨y, ?_, yShape, fun i t outer below => ?_⟩
  · simp only [normalised, multiplied, reshaped, stretched, outIs, normIs, outCutIs', normCutIs',
      divided, flattened, fitting, bind, Except.bind]
  · have row : position lead i < rows := leading ▸ position_lt outer
    have here : Within [position lead i, t] [rows, length] := .cons row (.cons below .nil)
    have place : position (lead ++ [length]) (i ++ [t]) =
        position quotient.shape [position lead i, t] := by
      rw [position_append outer.length_eq, quotientShape]
      simp [position]
    have single : (if length = 1 then 0 else t) = t := by
      split <;> omega
    have numerator : outCut.get [position lead i, t] = ∑ f ∈ Finset.range frames,
        contribution windowed nFft hop (position lead i) f (pad + t) := by
      refine (outCutEntry [_] t [] (.cons row .nil) (by omega) .nil).trans ?_
      rw [Int.toNat_natCast]
      exact outEntry _ _ row (by omega)
    have denominator : normCut.get [0, t] = windowSum window nFft hop frames (pad + t) := by
      refine (normCutEntry [0] t [] (.cons Nat.zero_lt_one .nil) (by omega) .nil).trans ?_
      rw [Int.toNat_natCast]
      refine (normEntry 0 _ Nat.zero_lt_one (by omega)).trans ?_
      refine Finset.sum_congr rfl fun f member => ?_
      unfold contribution
      split
      · exact squaresEntry f _ (Finset.mem_range.mp member) (by omega)
      · rfl
    have alignedOut : Tensor.align outCut.shape [position lead i, t] = [position lead i, t] := by
      rw [outCutShape]
      exact Tensor.align_self here
    have alignedNorm : Tensor.align (normCut.map fun v => max v normFloor).shape
        [position lead i, t] = [0, t] := by
      rw [Tensor.map_shape, normCutShape]
      simp [Tensor.align, single]
    have inNorm : Within [0, t] normCut.shape := by
      rw [normCutShape]
      exact .cons Nat.zero_lt_one (.cons below .nil)
    rw [yEntry _ _ place, quotientEntry _ here, alignedOut, alignedNorm,
      Tensor.get_map _ inNorm, numerator, denominator]

def Stft.frame (stft : Stft K) (x : Tensor K) (row : List Nat) (f : Nat) : List K :=
  (List.range stft.nFft).map fun k => x.get (row ++ [f * stft.hop + k]) * stft.window.get [k]

theorem windowed_spec (stft : Stft K) {x : Tensor K} {rows frames : Nat}
    (shape : x.shape = [rows, frames, stft.nFft]) :
    ∃ y, x.zipWith (· * ·) stft.window = some y ∧ y.shape = [rows, frames, stft.nFft] ∧
      ∀ r f k, r < rows → f < frames → k < stft.nFft →
        y.get [r, f, k] = x.get [r, f, k] * stft.window.get [k] := by
  have fits : Tensor.broadcast x.shape stft.window.shape = some [rows, frames, stft.nFft] := by
    rw [shape, stft.windowShape]
    exact Tensor.broadcast_last [rows, frames] stft.nFft
  obtain ⟨y, multiplied, yShape, yEntry⟩ := Tensor.zipWith_spec (· * ·) fits
  refine ⟨y, multiplied, yShape, fun r f k row frame sample => ?_⟩
  have here : Within [r, f, k] [rows, frames, stft.nFft] :=
    .cons row (.cons frame (.cons sample .nil))
  have last : Tensor.align [stft.nFft] [r, f, k] = [k] := Tensor.align_last [r, f] sample
  rw [yEntry _ here, shape, stft.windowShape, Tensor.align_self here, last]

/-- Column `f` of the spectrogram is the transform of windowed frame `f` of the padded track. -/
theorem Stft.forward_spec (fourier : Fourier K) (stft : Stft K) {x padded : Tensor K}
    {centred : Bool} (centring : stft.centre x centred = .ok padded)
    {lead : List Nat} {samples : Nat} (shape : padded.shape = lead ++ [samples])
    (enough : stft.nFft ≤ samples) :
    ∃ z, stft.forward fourier x centred = .ok z ∧
      z.shape = lead ++ [stft.bins, (samples - stft.nFft) / stft.hop + 1] ∧
      ∀ i b f, Within i lead → b < stft.bins → f < (samples - stft.nFft) / stft.hop + 1 →
        z.get (i ++ [b, f]) = (fourier.rfft (stft.frame padded i f)).getD b 0 := by
  have front : padded.shape.dropLast = lead := by rw [shape, List.dropLast_concat]
  generalize framesAre : (samples - stft.nFft) / stft.hop + 1 = frames
  have within : ∀ f < frames, f * stft.hop + stft.nFft ≤ samples := by
    intro f below
    have := Nat.div_mul_le_self (samples - stft.nFft) stft.hop
    have : f * stft.hop ≤ (samples - stft.nFft) / stft.hop * stft.hop :=
      Nat.mul_le_mul_right _ (by omega)
    omega
  obtain ⟨flat, flattened, flatShape, flatEntry⟩ :=
    padded.reshape_spec [lead.prod, samples] (by rw [shape]; simp)
  obtain ⟨framed, strided, framedShape, framedEntry⟩ :=
    Tensor.asStrided_frames lead.prod samples frames stft.nFft stft.hop flatShape within
  obtain ⟨windowed, multiplied, windowedShape, windowedEntry⟩ := windowed_spec stft framedShape
  obtain ⟨spectrumShape, spectrumEntry⟩ :=
    Tensor.mapRows_spec [lead.prod, frames] stft.nFft windowedShape stft.bins fourier.rfft
  obtain ⟨unflat, unflattened, unflatShape, unflatEntry⟩ :=
    (windowed.mapRows stft.bins fourier.rfft).reshape_spec (lead ++ [frames, stft.bins])
      (by rw [spectrumShape]; simp)
  obtain ⟨z, swapped, zShape, zEntry⟩ := Tensor.swapLast_spec lead frames stft.bins unflatShape
  have axis : (lead ++ [frames, stft.bins]).length - 2 = lead.length := by simp
  have axis' : (lead ++ [frames, stft.bins]).length - 1 = lead.length + 1 := by simp
  refine ⟨z, ?_, zShape, fun i b f outer bin frame => ?_⟩
  · simp only [Stft.forward, centring, lastAxis_eq shape, front, framesAre, bind, Except.bind]
    rw [if_neg (by omega)]
    simp only [flattened, strided, multiplied, unflattened, axis, axis', swapped, fitting]
  · have row : position lead i < lead.prod := position_lt outer
    have place : position (lead ++ [frames, stft.bins]) (i ++ [f, b]) =
        position (windowed.mapRows stft.bins fourier.rfft).shape [position lead i, f, b] := by
      rw [position_append outer.length_eq, spectrumShape]
      simp [position]
    have source : ∀ k, k < stft.nFft → flat.get [position lead i, f * stft.hop + k] =
        padded.get (i ++ [f * stft.hop + k]) := by
      intro k _
      apply flatEntry
      rw [shape, position_append outer.length_eq]
      simp [position]
    have samplesAre : windowed.row [position lead i, f] = stft.frame padded i f := by
      rw [Tensor.row_eq [lead.prod, frames] stft.nFft windowedShape, Stft.frame]
      apply List.map_congr_left
      intro k member
      have sample := List.mem_range.mp member
      rw [← source k sample, ← framedEntry _ f k row frame sample]
      exact windowedEntry _ f k row frame sample
    rw [zEntry i b f outer bin frame, unflatEntry _ _ place, ← samplesAre]
    exact spectrumEntry [_, f] b (.cons row (.cons frame .nil)) bin

def Stft.placed (stft : Stft K) (samples : List K) (f t : Nat) : K :=
  if f * stft.hop ≤ t ∧ t < f * stft.hop + stft.nFft then
    samples.getD (t - f * stft.hop) 0 * stft.window.get [t - f * stft.hop]
  else 0

def column (z : Tensor (Complex64 K)) (clean : Nat → Complex64 K → Complex64 K) (row : List Nat)
    (bins f : Nat) : List (Complex64 K) :=
  (List.range bins).map fun b => clean b (z.get (row ++ [b, f]))

theorem invertFrames_spec [LinearOrder K] (fourier : Fourier K) (stft : Stft K)
    (size : 0 < stft.nFft) (hops : 0 < stft.hop)
    (prepare : Tensor (Complex64 K) → Except SpectralError (Tensor (Complex64 K)))
    (clean : Nat → Complex64 K → Complex64 K) {z : Tensor (Complex64 K)} {lead : List Nat}
    {bins frames : Nat} (shape : z.shape = lead ++ [bins, frames]) (nonempty : 0 < frames)
    (prepares : ∀ flat : Tensor (Complex64 K), flat.shape = [lead.prod, frames, bins] →
      ∃ prepared, prepare flat = .ok prepared ∧ prepared.shape = [lead.prod, frames, bins] ∧
        ∀ r f b, r < lead.prod → f < frames → b < bins →
          prepared.get [r, f, b] = clean b (flat.get [r, f, b]))
    (widthOf : Nat → Int) {width pad length : Nat} (wide : widthOf frames = width)
    (inside : pad + length ≤ width) :
    ∃ y, invertFrames fourier stft prepare z widthOf pad length = .ok y ∧
      y.shape = lead ++ [length] ∧ ∀ i t, Within i lead → t < length → y.get (i ++ [t]) =
        (∑ f ∈ Finset.range frames,
            stft.placed (fourier.irfft stft.nFft (column z clean i bins f)) f (pad + t)) /
          max (windowSum stft.window stft.nFft stft.hop frames (pad + t)) normFloor := by
  have last : z.shape.reverse.take 2 = [frames, bins] := by rw [shape]; simp
  have front : z.shape.take (z.shape.length - 2) = lead := by rw [shape]; simp
  obtain ⟨flat, flattened, flatShape, flatEntry⟩ :=
    z.reshape_spec [lead.prod, bins, frames] (by rw [shape]; simp)
  obtain ⟨turned, swapped, turnedShape, turnedEntry⟩ :=
    Tensor.swapLast_spec [lead.prod] bins frames flatShape
  have swapped' : flat.swapAxes 1 2 = some turned := swapped
  obtain ⟨prepared, preparing, preparedShape, preparedEntry⟩ := prepares turned turnedShape
  obtain ⟨timeShape, timeEntry⟩ := Tensor.mapRows_spec [lead.prod, frames] bins preparedShape
    stft.nFft (fourier.irfft stft.nFft)
  obtain ⟨windowed, multiplied, windowedShape, windowedEntry⟩ := windowed_spec stft timeShape
  obtain ⟨y, normal, yShape, yEntry⟩ :=
    normalised_spec stft.windowShape windowedShape nonempty size hops inside lead rfl
  refine ⟨y, ?_, yShape, fun i t outer below => ?_⟩
  · simp only [invertFrames, last, front, flattened, swapped', preparing, multiplied, wide,
      Int.toNat_natCast, normal, fitting, bind, Except.bind]
  · have row : position lead i < lead.prod := position_lt outer
    rw [yEntry i t outer below]
    congr 1
    refine Finset.sum_congr rfl fun f member => ?_
    have frame := Finset.mem_range.mp member
    have columnIs : prepared.row [position lead i, f] = column z clean i bins f := by
      rw [Tensor.row_eq [lead.prod, frames] bins preparedShape, column]
      apply List.map_congr_left
      intro b bin
      have bin := List.mem_range.mp bin
      have place : position [lead.prod, bins, frames] [position lead i, b, f] =
          position z.shape (i ++ [b, f]) := by
        rw [shape, position_append outer.length_eq]
        simp [position]
      rw [← flatEntry _ _ place]
      refine (preparedEntry _ f b row frame bin).trans (congrArg (clean b) ?_)
      exact turnedEntry [_] f b (.cons row .nil) frame bin
    unfold contribution Stft.placed
    split
    · rw [windowedEntry _ f _ row frame (by omega), ← columnIs]
      congr 1
      exact timeEntry [_, f] _ (.cons row (.cons frame .nil)) (by omega)
    · rfl

theorem map_getD_range {α : Type} (l : List α) (default : α) {n : Nat} (length : l.length = n) :
    (List.range n).map (fun k => l.getD k default) = l := by
  subst length
  apply List.ext_getElem (by simp)
  intro k _ inside
  simp [inside]

/-- Windowed on the way in and on the way out, a frame gives back each sample under it by the
square of the window there. -/
theorem Stft.placed_frame (stft : Stft K) (x : Tensor K) (row : List Nat) (f t : Nat) :
    stft.placed (stft.frame x row f) f t = x.get (row ++ [t]) *
      if f * stft.hop ≤ t ∧ t < f * stft.hop + stft.nFft then
        stft.window.get [t - f * stft.hop] * stft.window.get [t - f * stft.hop]
      else 0 := by
  rw [Stft.placed]
  split
  · rename_i here
    have inside : t - f * stft.hop < stft.nFft := by omega
    have back : f * stft.hop + (t - f * stft.hop) = t := by omega
    rw [Stft.frame, List.getD_eq_getElem _ _ (by simpa using inside), List.getElem_map,
      List.getElem_range, back, mul_assoc]
  · rw [mul_zero]

theorem normFloor_pos [LinearOrder K] [IsStrictOrderedRing K] : (0 : K) < normFloor := by
  rw [normFloor]
  norm_num

theorem inverse_forward [LinearOrder K] [IsStrictOrderedRing K] (fourier : Fourier K)
    (stft : Stft K) (even : 2 ∣ stft.nFft) (hops : 0 < stft.hop) (half : stft.hop ≤ stft.nFft / 2)
    (undoes : fourier.Undoes stft.nFft) {x : Tensor K} {lead : List Nat} {T : Nat}
    (shape : x.shape = lead ++ [T]) (long : stft.nFft / 2 < T)
    (covered : ∀ t < T, normFloor ≤
      windowSum stft.window stft.nFft stft.hop (T / stft.hop + 1) (stft.nFft / 2 + t)) :
    (do let z ← stft.forward fourier x true
        stft.inverse fourier z T true) = .ok x := by
  obtain ⟨padded, reflected, paddedShape, paddedEntry⟩ := reflectPad_spec shape long long
  have centring : stft.centre x true = .ok padded := reflected
  obtain ⟨z, forward, zShape, zEntry⟩ :=
    Stft.forward_spec fourier stft centring paddedShape (by omega)
  have frames : (stft.nFft / 2 + T + stft.nFft / 2 - stft.nFft) / stft.hop + 1 =
      T / stft.hop + 1 := by
    have : stft.nFft / 2 + T + stft.nFft / 2 - stft.nFft = T := by omega
    rw [this]
  rw [frames] at zShape zEntry
  obtain ⟨y, inverse, yShape, yEntry⟩ :=
    invertFrames_spec fourier stft (by omega) hops .ok (fun _ v => v) zShape (Nat.succ_pos _)
      (fun flat flatShape => ⟨flat, rfl, flatShape, fun _ _ _ _ _ _ => rfl⟩)
      (fun _ => (T : Int) + 2 * (stft.nFft / 2 : Nat))
      (show _ = ((T + 2 * (stft.nFft / 2) : Nat) : Int) by push_cast; rfl)
      (show stft.nFft / 2 + T ≤ T + 2 * (stft.nFft / 2) by omega)
  have back : y = x := by
    apply Tensor.ext_get (yShape.trans shape.symm)
    intro index within
    rw [yShape] at within
    obtain ⟨i, rest, rfl, outer, inner⟩ := within_split within
    obtain ⟨t, rfl, below⟩ := Tensor.within_one inner
    -- The transform of a frame and its inverse cancel, which leaves the window, twice.
    have heard : ∀ f < T / stft.hop + 1,
        fourier.irfft stft.nFft (column z (fun _ v => v) i stft.bins f) =
          stft.frame padded i f := by
      intro f frame
      have length : (stft.frame padded i f).length = stft.nFft := by simp [Stft.frame]
      have columnIs : column z (fun _ v => v) i stft.bins f =
          fourier.rfft (stft.frame padded i f) := by
        rw [← map_getD_range (fourier.rfft (stft.frame padded i f)) 0
          (n := stft.bins) (by rw [fourier.rfft_length, length, Stft.bins]), column]
        exact List.map_congr_left fun b bin => zEntry i b f outer (List.mem_range.mp bin) frame
      rw [columnIs, undoes _ length]
    have sum : ∑ f ∈ Finset.range (T / stft.hop + 1), stft.placed
          (fourier.irfft stft.nFft (column z (fun _ v => v) i stft.bins f)) f
          (stft.nFft / 2 + t) =
        x.get (i ++ [t]) *
          windowSum stft.window stft.nFft stft.hop (T / stft.hop + 1) (stft.nFft / 2 + t) := by
      have centre : padded.get (i ++ [stft.nFft / 2 + t]) = x.get (i ++ [t]) := by
        rw [paddedEntry i _ outer (by omega), reflectIndex, if_neg (by omega), if_pos (by omega),
          Nat.add_sub_cancel_left]
      rw [windowSum, Finset.mul_sum]
      refine Finset.sum_congr rfl fun f member => ?_
      rw [heard f (Finset.mem_range.mp member), Stft.placed_frame, centre]
    have enough := covered t below
    have nonzero := (lt_of_lt_of_le normFloor_pos enough).ne'
    rw [yEntry i t outer below, sum, max_eq_left enough, mul_div_cancel_right₀ _ nonzero]
  have whole : stft.inverse fourier z T true = .ok y := inverse
  simp only [forward, bind, Except.bind, whole, back]

end

/-- The transforms of frames of two samples: their sum and their difference. -/
def pairFourier : Fourier ℚ where
  rfft samples := (List.range (samples.length / 2 + 1)).map fun b =>
    ⟨samples.getD 0 0 + (-1) ^ b * samples.getD 1 0, 0⟩
  irfft _ bins := [((bins.getD 0 0).re + (bins.getD 1 0).re) / 2,
    ((bins.getD 0 0).re - (bins.getD 1 0).re) / 2]
  rfft_length samples := by rw [List.length_map, List.length_range]

theorem pairFourier_undoes : pairFourier.Undoes 2 := by
  intro samples length
  obtain ⟨a, b, rfl⟩ := List.length_eq_two.mp length
  have sum : (a + b + (a + -b)) / 2 = a := by ring
  simp [pairFourier, List.range_succ, sum]

def pairStft : Stft ℚ := .new (fun i _ => if i = 0 then 1 else -1) 2 1

def pairTrack : Tensor ℚ := ⟨[2, 3], [1, 2, 3, -1 / 2, 0, 5], rfl⟩

theorem pair_inverse_forward :
    (do let z ← pairStft.forward pairFourier pairTrack true
        pairStft.inverse pairFourier z 3 true) = .ok pairTrack :=
  inverse_forward pairFourier pairStft (by decide) (by decide) (by decide) pairFourier_undoes
    (show pairTrack.shape = [2] ++ [3] from rfl) (by decide) (by decide +kernel)

end Stemd.Mlx
