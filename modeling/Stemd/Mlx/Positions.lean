import Mathlib
import Stemd.Mlx.Attention

/-! The sinusoidal positions of the cross-domain transformer, of one dimension for the time
branch and of two for the frequency branch.

Sine and cosine alternate channel by channel in the one and stand in two halves in the other, and
the shapes would agree either way. -/

set_option autoImplicit false

namespace Stemd.Mlx.Transformer

open Stemd.Semantics
open Stemd.Mlx.Roformer (Attending)

structure Powers (K : Type) where
  ln : K → K
  power : K → K → K

section

variable {K : Type} [Field K]

def maxPeriod : K := ((10000 : Nat) : K)

def counting (count : Nat) (shape : List Nat) (fits : count = shape.prod) : Tensor K :=
  ⟨shape, (List.range count).map fun i : Nat => (i : K), by simpa using fits⟩

/-- `[T, 1, dim]`, cosines then sines. -/
def sinEmbedding (attending : Attending K) (powers : Powers K) (length dim : Nat) :
    Except SpectralError (Tensor K) := do
  let half := dim / 2
  let pos : Tensor K := counting length [length, 1, 1] (by simp)
  let adim : Tensor K := counting half [1, 1, half] (by simp)
  let denom := (adim.map (· / ((half : K) - 1))).map (powers.power maxPeriod)
  let phase ← fitting (pos.zipWith (· / ·) denom)
  fitting (Tensor.concatAxis [phase.map attending.cos, phase.map attending.sin] 2)

def frequency (attending : Attending K) (powers : Powers K) (half i : Nat) : K :=
  attending.exp (-powers.ln maxPeriod / (half : K) * ((2 * i : Nat) : K))

def axisWaves (attending : Attending K) (powers : Powers K) (half terms len : Nat) :
    Except SpectralError (Tensor K × Tensor K) := do
  let div : Tensor K :=
    ⟨[1, terms], (List.range terms).map (frequency attending powers half), by simp⟩
  let pos : Tensor K := counting len [len, 1] (by simp)
  let angle ← fitting (pos.zipWith (· * ·) div)
  let sines ← fitting ((angle.map attending.sin).transposeAxes [1, 0])
  let cosines ← fitting ((angle.map attending.cos).transposeAxes [1, 0])
  return (sines, cosines)

def interleaved (half terms height width : Nat) (along : List Nat) (waves : Tensor K × Tensor K) :
    Except SpectralError (Tensor K) := do
  let sines ← fitting (waves.1.reshape along)
  let sines ← fitting (sines.broadcastTo [terms, height, width])
  let cosines ← fitting (waves.2.reshape along)
  let cosines ← fitting (cosines.broadcastTo [terms, height, width])
  let stacked ← fitting (Tensor.stackAxis [sines, cosines] 1)
  fitting (stacked.reshape [half, height, width])

/-- `[1, d_model, height, width]`: half the channels encode width and half encode height. -/
def sinEmbedding2d (attending : Attending K) (powers : Powers K) (dModel height width : Nat) :
    Except SpectralError (Tensor K) := do
  let half := dModel / 2
  let terms := half / 2
  let waves ← axisWaves attending powers half terms width
  let peW ← interleaved half terms height width [terms, 1, width] waves
  let waves ← axisWaves attending powers half terms height
  let peH ← interleaved half terms height width [terms, height, 1] waves
  let pe ← fitting (Tensor.concatAxis [peW, peH] 0)
  fitting (pe.reshape [1, dModel, height, width])

def wave (attending : Attending K) (powers : Powers K) (half c place : Nat) : K :=
  let angle := (place : K) * frequency attending powers half (c / 2)
  if c % 2 = 0 then attending.sin angle else attending.cos angle

def cellPosition (attending : Attending K) (powers : Powers K) (dModel h w : Nat) : List K :=
  let half := dModel / 2
  ((List.range half).map fun c => wave attending powers half c w) ++
    (List.range half).map fun c => wave attending powers half c h

def instantPosition (attending : Attending K) (powers : Powers K) (dim t : Nat) : List K :=
  let half := dim / 2
  let phase := fun i : Nat => (t : K) / powers.power maxPeriod ((i : K) / ((half : K) - 1))
  ((List.range half).map fun i => attending.cos (phase i)) ++
    (List.range half).map fun i => attending.sin (phase i)

theorem counting_get {count : Nat} {shape : List Nat} (fits : count = shape.prod)
    {index : List Nat} {i : Nat} (at_i : position shape index = i) (below : i < count) :
    (counting count shape fits : Tensor K).get index = i := by
  rw [Tensor.get, show (counting count shape fits : Tensor K).shape = shape from rfl, at_i,
    counting, List.getD_eq_getElem _ _ (by simpa using below), List.getElem_map,
    List.getElem_range]

theorem axisWaves_spec (attending : Attending K) (powers : Powers K) (half terms len : Nat) :
    ∃ waves, axisWaves attending powers half terms len = .ok waves ∧
      waves.1.shape = [terms, len] ∧ waves.2.shape = [terms, len] ∧
      ∀ i p, i < terms → p < len →
        waves.1.get [i, p] = attending.sin ((p : K) * frequency attending powers half i) ∧
        waves.2.get [i, p] = attending.cos ((p : K) * frequency attending powers half i) := by
  obtain ⟨div, divIs⟩ : ∃ div : Tensor K, div =
    ⟨[1, terms], (List.range terms).map (frequency attending powers half), by simp⟩ := ⟨_, rfl⟩
  have divShape : div.shape = [1, terms] := by rw [divIs]
  have divEntry : ∀ i < terms, div.get [0, i] = frequency attending powers half i := by
    intro i below
    subst divIs
    simp only [Tensor.get, position, List.prod_nil, Nat.zero_mul, Nat.zero_add, Nat.mul_one,
      Nat.add_zero]
    rw [List.getD_eq_getElem _ _ (by simpa using below), List.getElem_map, List.getElem_range]
  let pos : Tensor K := counting len [len, 1] (by simp)
  have fits : Tensor.broadcast pos.shape div.shape = some [len, terms] := by
    rw [divShape, show pos.shape = [len, 1] from rfl]
    simp [Tensor.broadcast, Tensor.stretch_one_left, Tensor.stretch_one_right,
      Tensor.stretch_nil]
  obtain ⟨angle, multiplied, angleShape, angleEntry⟩ := Tensor.zipWith_spec (· * ·) fits
  have angleIs : ∀ i p, i < terms → p < len →
      angle.get [p, i] = (p : K) * frequency attending powers half i := by
    intro i p term place
    have alignedPos : Tensor.align [len, 1] [p, i] = [p, 0] := by
      simp [Tensor.align, Tensor.align_here place]
    have alignedDiv : Tensor.align [1, terms] [p, i] = [0, i] := by
      simp [Tensor.align, Tensor.align_here term]
    rw [angleEntry [p, i] (.cons place (.cons term .nil)), divShape,
      show pos.shape = [len, 1] from rfl, alignedPos, alignedDiv, divEntry i term]
    exact congrArg (· * _) (counting_get _ (by simp [position]) place)
  have turned : ∀ f : K → K, ∃ y, (angle.map f).transposeAxes [1, 0] = some y ∧
      y.shape = [terms, len] ∧ ∀ i p, i < terms → p < len → y.get [i, p] =
        f ((p : K) * frequency attending powers half i) := by
    intro f
    have shape : (angle.map f).shape = [len, terms] := angleShape
    have rank : (angle.map f).shape.length = 2 := by rw [shape]; rfl
    have order : [1, 0].Perm (List.range (angle.map f).shape.length) := by
      rw [rank]
      decide
    obtain ⟨y, transposed, yShape, entry⟩ := Tensor.transposeAxes_spec order
    rw [shape] at yShape entry
    refine ⟨y, transposed, yShape, fun i p term place => ?_⟩
    refine (entry [i, p] (.cons term (.cons place .nil))).trans ?_
    refine (Tensor.get_map f (angleShape ▸ .cons place (.cons term .nil))).trans ?_
    exact congrArg f (angleIs i p term place)
  obtain ⟨sines, sinesIs, sinesShape, sinesEntry⟩ := turned attending.sin
  obtain ⟨cosines, cosinesIs, cosinesShape, cosinesEntry⟩ := turned attending.cos
  refine ⟨(sines, cosines), ?_, sinesShape, cosinesShape, fun i p term place =>
    ⟨sinesEntry i p term place, cosinesEntry i p term place⟩⟩
  simp only [axisWaves, ← divIs]
  rw [show (counting len [len, 1] (by simp) : Tensor K).zipWith (· * ·) div = some angle from
    multiplied]
  simp only [sinesIs, cosinesIs, fitting, bind, Except.bind]
  rfl

theorem interleaved_spec {waves : Tensor K × Tensor K} {terms len : Nat} (height width : Nat)
    (sines : waves.1.shape = [terms, len]) (cosines : waves.2.shape = [terms, len])
    (along : List Nat) (place : Nat → Nat → Nat) (size : along.prod = terms * len)
    (fits : Tensor.broadcast along [terms, height, width] = some [terms, height, width])
    (placed : ∀ i h w, i < terms → h < height → w < width →
      position along (Tensor.align along [i, h, w]) = i * len + place h w) :
    ∃ y, interleaved (terms * 2) terms height width along waves = .ok y ∧
      y.shape = [terms * 2, height, width] ∧
      ∀ c h w, c < terms * 2 → h < height → w < width → y.get [c, h, w] =
        if c % 2 = 0 then waves.1.get [c / 2, place h w] else waves.2.get [c / 2, place h w] := by
  have spread : ∀ x : Tensor K, x.shape = [terms, len] → ∃ y z, x.reshape along = some y ∧
      y.broadcastTo [terms, height, width] = some z ∧ z.shape = [terms, height, width] ∧
      ∀ i h w, i < terms → h < height → w < width → z.get [i, h, w] = x.get [i, place h w] := by
    intro x shape
    obtain ⟨y, reshaped, yShape, yEntry⟩ := x.reshape_spec along (by rw [shape]; simpa using size)
    obtain ⟨z, broadcasted, zShape, zEntry⟩ :=
      Tensor.broadcastTo_spec (show Tensor.broadcast y.shape [terms, height, width] =
        some [terms, height, width] by rw [yShape, fits])
    refine ⟨y, z, reshaped, broadcasted, zShape, fun i h w term row column => ?_⟩
    rw [zEntry _ (.cons term (.cons row (.cons column .nil))), yShape]
    apply yEntry
    rw [placed i h w term row column, shape]
    simp [position]
  obtain ⟨s, sines', reshaped, broadcasted, sShape, sEntry⟩ := spread waves.1 sines
  obtain ⟨c, cosines', reshaped', broadcasted', cShape, cEntry⟩ := spread waves.2 cosines
  have shapes : ∀ part ∈ [sines', cosines'], part.shape = [terms] ++ [height, width] := by
    intro part member
    rcases List.mem_pair.mp member with rfl | rfl
    · exact sShape
    · exact cShape
  obtain ⟨stacked, stacking, stackedShape, stackedEntry⟩ :=
    Tensor.stackAxis_spec [terms] [height, width] (by simp) shapes
  obtain ⟨y, merged, yShape, yEntry⟩ :=
    Tensor.mergeAxes_spec [] terms 2 [height, width] stackedShape
  refine ⟨y, ?_, yShape, fun channel h w below row column => ?_⟩
  · simp only [interleaved, reshaped, broadcasted, reshaped', broadcasted', fitting, bind,
      Except.bind]
    rw [show Tensor.stackAxis [sines', cosines'] 1 = some stacked from stacking]
    simp only [show stacked.reshape [terms * 2, height, width] = some y from merged]
  · have term : channel / 2 < terms := by omega
    have plane : Within [h, w] [height, width] := .cons row (.cons column .nil)
    have entry := yEntry [] (channel / 2) (channel % 2) [h, w] rfl
    rw [Nat.div_add_mod' channel 2] at entry
    refine entry.trans ?_
    rcases Nat.mod_two_eq_zero_or_one channel with even | odd
    · rw [even, if_pos rfl, ← sEntry _ h w term row column]
      exact stackedEntry 0 sines' rfl [channel / 2] [h, w] (.cons term .nil) plane
    · rw [odd, if_neg Nat.one_ne_zero, ← cEntry _ h w term row column]
      exact stackedEntry 1 cosines' rfl [channel / 2] [h, w] (.cons term .nil) plane

theorem cellPosition_length (attending : Attending K) (powers : Powers K) {dModel : Nat}
    (even : 2 ∣ dModel) (h w : Nat) :
    (cellPosition attending powers dModel h w).length = dModel := by
  rw [cellPosition, List.length_append, List.length_map, List.length_map, List.length_range]
  omega

theorem sinEmbedding2d_spec (attending : Attending K) (powers : Powers K)
    {dModel : Nat} (four : 4 ∣ dModel) (height width : Nat) :
    ∃ pe, sinEmbedding2d attending powers dModel height width = .ok pe ∧
      pe.shape = [1, dModel, height, width] ∧
      ∀ c h w, c < dModel → h < height → w < width → pe.get [0, c, h, w] =
        (cellPosition attending powers dModel h w).getD c 0 := by
  obtain ⟨terms, rfl⟩ := four
  have halved : 4 * terms / 2 = terms * 2 := by omega
  obtain ⟨across, acrossIs, acrossSines, acrossCosines, acrossEntry⟩ :=
    axisWaves_spec attending powers (terms * 2) terms width
  obtain ⟨down, downIs, downSines, downCosines, downEntry⟩ :=
    axisWaves_spec attending powers (terms * 2) terms height
  obtain ⟨peW, peWIs, peWShape, peWEntry⟩ :=
    interleaved_spec height width acrossSines acrossCosines
      [terms, 1, width] (fun _ w => w) (by simp)
      (by simp [Tensor.broadcast, Tensor.stretch_one_left, Tensor.stretch_same, Tensor.stretch_nil])
      (by
        intro i h w term _ column
        simp [Tensor.align, Tensor.align_here term, Tensor.align_here column, position])
  obtain ⟨peH, peHIs, peHShape, peHEntry⟩ :=
    interleaved_spec height width downSines downCosines
      [terms, height, 1] (fun h _ => h) (by simp)
      (by simp [Tensor.broadcast, Tensor.stretch_one_left, Tensor.stretch_same, Tensor.stretch_nil])
      (by
        intro i h w term row _
        simp [Tensor.align, Tensor.align_here term, Tensor.align_here row, position])
  obtain ⟨joined, joining, joinedShape, joinedEntry⟩ :=
    Tensor.concatAxis_spec [peW, peH] [] [terms * 2, terms * 2] [height, width] (by simp)
      (.cons peWShape (.cons peHShape .nil))
  obtain ⟨pe, reshaped, peShape, peEntry⟩ :=
    joined.reshape_spec [1, 4 * terms, height, width] (by
      rw [joinedShape]
      simp only [List.nil_append, List.prod_cons, List.prod_nil, List.sum_cons, List.sum_nil]
      ring)
  refine ⟨pe, ?_, peShape, fun c h w channel row column => ?_⟩
  · simp only [sinEmbedding2d, halved, Nat.mul_div_cancel _ Nat.two_pos, acrossIs, peWIs, downIs,
      peHIs, bind, Except.bind]
    rw [show Tensor.concatAxis [peW, peH] 0 = some joined from joining]
    simp only [fitting, reshaped]
  · have here : position [1, 4 * terms, height, width] [0, c, h, w] =
        position joined.shape [c, h, w] := by
      rw [joinedShape]
      simp [position]
    have plane : Within [h, w] [height, width] := .cons row (.cons column .nil)
    have waves : ∀ i p, i < terms * 2 → (((List.range (terms * 2)).map fun c =>
        wave attending powers (terms * 2) c p).getD i 0) =
          wave attending powers (terms * 2) i p := by
      intro i p below
      rw [List.getD_eq_getElem _ _ (by simpa using below), List.getElem_map, List.getElem_range]
    rw [peEntry _ _ here, cellPosition, halved]
    by_cases first : c < terms * 2
    · have entry := joinedEntry 0 _ peW rfl rfl [] c [h, w] .nil first plane
      simp only [List.take_zero, List.sum_nil, Nat.zero_add, List.nil_append] at entry
      rw [entry, peWEntry c h w first row column, List.getD_append _ _ _ _ (by simpa using first),
        waves c w first, wave]
      obtain ⟨sine, cosine⟩ := acrossEntry (c / 2) w (by omega) column
      rw [sine, cosine]
    · obtain ⟨d, rfl⟩ := Nat.exists_eq_add_of_le (Nat.le_of_not_lt first)
      have second : d < terms * 2 := by omega
      have entry := joinedEntry 1 _ peH rfl rfl [] d [h, w] .nil second plane
      simp only [List.take_succ_cons, List.take_zero, List.sum_cons, List.sum_nil, Nat.add_zero,
        List.nil_append] at entry
      rw [entry, peHEntry d h w second row column,
        List.getD_append_right _ _ _ _ (by simp), List.length_map, List.length_range,
        Nat.add_sub_cancel_left, waves d h second, wave]
      obtain ⟨sine, cosine⟩ := downEntry (d / 2) h (by omega) row
      rw [sine, cosine]

theorem instantPosition_length (attending : Attending K) (powers : Powers K) {dim : Nat}
    (even : 2 ∣ dim) (t : Nat) : (instantPosition attending powers dim t).length = dim := by
  rw [instantPosition, List.length_append, List.length_map, List.length_map, List.length_range]
  omega

theorem sinEmbedding_spec (attending : Attending K) (powers : Powers K) {dim : Nat}
    (even : 2 ∣ dim) (length : Nat) :
    ∃ pe, sinEmbedding attending powers length dim = .ok pe ∧ pe.shape = [length, 1, dim] ∧
      ∀ c t, c < dim → t < length →
        pe.get [t, 0, c] = (instantPosition attending powers dim t).getD c 0 := by
  obtain ⟨half, rfl⟩ := even
  have halved : 2 * half / 2 = half := by omega
  let pos : Tensor K := counting length [length, 1, 1] (by simp)
  let adim : Tensor K := counting half [1, 1, half] (by simp)
  let denom := (adim.map (· / ((half : K) - 1))).map (powers.power maxPeriod)
  have denomShape : denom.shape = [1, 1, half] := rfl
  have fits : Tensor.broadcast pos.shape denom.shape = some [length, 1, half] := by
    rw [denomShape, show pos.shape = [length, 1, 1] from rfl]
    simp [Tensor.broadcast, Tensor.stretch_one_left, Tensor.stretch_one_right,
      Tensor.stretch_nil]
  obtain ⟨phase, divided, phaseShape, phaseEntry⟩ := Tensor.zipWith_spec (· / ·) fits
  have phaseIs : ∀ t i, t < length → i < half → phase.get [t, 0, i] =
      (t : K) / powers.power maxPeriod ((i : K) / ((half : K) - 1)) := by
    intro t i instant term
    have origin : Within [0, 0, i] [1, 1, half] :=
      .cons Nat.one_pos (.cons Nat.one_pos (.cons term .nil))
    have alignedPos : Tensor.align [length, 1, 1] [t, 0, i] = [t, 0, 0] := by
      simp [Tensor.align, Tensor.align_here instant]
    have alignedDenom : Tensor.align [1, 1, half] [t, 0, i] = [0, 0, i] := by
      simp [Tensor.align, Tensor.align_here term]
    have term_is : denom.get [0, 0, i] = powers.power maxPeriod ((i : K) / ((half : K) - 1)) := by
      rw [Tensor.get_map _ origin, Tensor.get_map _ origin,
        counting_get _ (by simp [position]) term]
    rw [phaseEntry [t, 0, i] (.cons instant (.cons Nat.one_pos (.cons term .nil))), denomShape,
      show pos.shape = [length, 1, 1] from rfl, alignedPos, alignedDenom, term_is]
    exact congrArg (· / _) (counting_get _ (by simp [position]) instant)
  obtain ⟨pe, joining, peShape, peEntry⟩ :=
    Tensor.concatAxis_spec [phase.map attending.cos, phase.map attending.sin] [length, 1]
      [half, half] [] (by simp) (.cons phaseShape (.cons phaseShape .nil))
  refine ⟨pe, ?_, by rw [peShape]; simp; omega, fun c t channel instant => ?_⟩
  · simp only [sinEmbedding, halved]
    rw [show (counting length [length, 1, 1] (by simp) : Tensor K).zipWith (· / ·) _ = some phase
      from divided]
    simp only [fitting, bind, Except.bind]
    rw [show Tensor.concatAxis [phase.map attending.cos, phase.map attending.sin] 2 = some pe from
      joining]
  · have lead : Within [t, 0] [length, 1] := .cons instant (.cons Nat.one_pos .nil)
    have entries : ∀ (f : K → K) (i : Nat), i < half → (phase.map f).get [t, 0, i] =
        f ((t : K) / powers.power maxPeriod ((i : K) / ((half : K) - 1))) := by
      intro f i term
      rw [Tensor.get_map f (phaseShape ▸ within_append lead (.cons term .nil)),
        phaseIs t i instant term]
    rw [instantPosition, halved]
    by_cases first : c < half
    · have entry := peEntry 0 _ _ rfl rfl [t, 0] c [] lead first .nil
      simp only [List.take_zero, List.sum_nil, Nat.zero_add, List.cons_append,
        List.nil_append] at entry
      rw [entry, entries _ c first, List.getD_append _ _ _ _ (by simpa using first),
        List.getD_eq_getElem _ _ (by simpa using first), List.getElem_map, List.getElem_range]
    · obtain ⟨d, rfl⟩ := Nat.exists_eq_add_of_le (Nat.le_of_not_lt first)
      have second : d < half := by omega
      have entry := peEntry 1 _ _ rfl rfl [t, 0] d [] lead second .nil
      simp only [List.take_succ_cons, List.take_zero, List.sum_cons, List.sum_nil, Nat.add_zero,
        List.cons_append, List.nil_append] at entry
      rw [entry, entries _ d second, List.getD_append_right _ _ _ _ (by simp), List.length_map,
        List.length_range, Nat.add_sub_cancel_left,
        List.getD_eq_getElem _ _ (by simpa using second), List.getElem_map, List.getElem_range]

end

/-- A whole number of radians is never a whole number of turns. -/
theorem nat_eq_of_circle {a b : Nat} (sines : Real.sin (a : ℝ) = Real.sin (b : ℝ))
    (cosines : Real.cos (a : ℝ) = Real.cos (b : ℝ)) : a = b := by
  have once : Real.cos ((a : ℝ) - b) = 1 := by
    rw [Real.cos_sub, sines, cosines, ← sq, ← sq, Real.cos_sq_add_sin_sq]
  obtain ⟨n, turns⟩ := (Real.cos_eq_one_iff _).mp once
  by_cases none : n = 0
  · rw [none, Int.cast_zero, zero_mul] at turns
    exact_mod_cast (sub_eq_zero.mp turns.symm)
  · -- Otherwise a turn would be a ratio of whole numbers.
    exfalso
    have whole : (n : ℝ) ≠ 0 := by exact_mod_cast none
    apply irrational_pi
    refine ⟨((a : ℚ) - b) / (n * 2), ?_⟩
    push_cast
    rw [div_eq_iff (mul_ne_zero whole two_ne_zero), ← turns]
    ring

/-- What the runtime computes, up to rounding. -/
noncomputable def realPowers : Powers ℝ where
  ln := Real.log
  power := fun base exponent => base ^ exponent

end Stemd.Mlx.Transformer
