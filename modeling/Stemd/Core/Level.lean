import Mathlib.Analysis.Real.Sqrt
import Stemd.Core.Hybrid

/-! Whether a track comes back at the level it went in.

What divides by the deviation adds a floor to it that what multiplies by it does not have. The
two lose a share of every sample's distance from the mean, and how large a share depends on
how far the mono mixdown deviates. -/

set_option autoImplicit false

namespace Stemd.Core

section

variable {K : Type} [Field K] [LinearOrder K]

def monoMean (mix : Audio K) : K := ((List.range mix.frames).map (monoAt mix)).sum / mix.frames

def monoVariance (mix : Audio K) : K :=
  ((List.range mix.frames).map fun i => (monoAt mix i - monoMean mix) ^ 2).sum / mix.frames

def Audio.Readable (mix : Audio K) : Prop := ∀ ch ∈ mix.data, mix.frames ≤ ch.length

def Normalisation.loss (norm : Normalisation K) : K := stdFloor / (norm.std + stdFloor)

theorem Normalisation.of_silent (root : K → K) {mix : Audio K} (silent : mix.frames = 0) :
    Normalisation.of root mix = some ⟨0, 1, 1 / (1 + stdFloor)⟩ := by
  simp [Normalisation.of, monoMeanStd, silent]

theorem Normalisation.of_heard (root : K → K) {mix : Audio K} (heard : mix.frames ≠ 0)
    (readable : mix.Readable) : Normalisation.of root mix =
      some ⟨monoMean mix, max (root (monoVariance mix)) stdFloor,
        1 / (max (root (monoVariance mix)) stdFloor + stdFloor)⟩ := by
  have stats : monoMeanStd root mix =
      some (monoMean mix, max (root (monoVariance mix)) stdFloor) := by
    rw [monoMeanStd, if_neg heard]
    exact if_pos readable
  rw [Normalisation.of, stats]
  rfl

theorem Normalisation.of_some {root : K → K} {mix : Audio K} {norm : Normalisation K}
    (ended : Normalisation.of root mix = some norm) :
    mix.Readable ∧ norm.invStd = 1 / (norm.std + stdFloor) := by
  obtain ⟨stats, found, rfl⟩ := Option.map_eq_some_iff.mp ended
  exact ⟨monoMeanStd_reach found, rfl⟩

variable [IsStrictOrderedRing K]

theorem stdFloor_pos : (0 : K) < stdFloor := by
  rw [stdFloor]
  norm_num

/-- Dividing by the deviation and a floor, and multiplying by the deviation alone. -/
theorem Normalisation.restore_apply {norm : Normalisation K} (positive : 0 < norm.std)
    (inverse : norm.invStd = 1 / (norm.std + stdFloor)) (v : K) :
    norm.restore (norm.apply v) - v = -((v - norm.mean) * norm.loss) := by
  have floor := stdFloor_pos (K := K)
  have divisor : norm.std + stdFloor ≠ 0 := (add_pos positive floor).ne'
  rw [Normalisation.restore, Normalisation.apply, inverse, Normalisation.loss]
  field_simp
  ring

theorem Normalisation.loss_pos {norm : Normalisation K} (positive : 0 < norm.std) :
    0 < norm.loss :=
  div_pos stdFloor_pos (add_pos positive stdFloor_pos)

theorem Normalisation.loss_le_iff {norm : Normalisation K} (positive : 0 < norm.std) :
    norm.loss ≤ 1 / 10000 ↔ 9999 * stdFloor ≤ norm.std := by
  have floor := stdFloor_pos (K := K)
  rw [Normalisation.loss, div_le_div_iff₀ (add_pos positive floor) (by norm_num)]
  constructor <;> intro _ <;> linarith

theorem Normalisation.kept_iff {norm : Normalisation K} (positive : 0 < norm.std)
    (inverse : norm.invStd = 1 / (norm.std + stdFloor)) :
    (∀ v, |norm.restore (norm.apply v) - v| ≤ |v - norm.mean| / 10000) ↔
      9999 * stdFloor ≤ norm.std := by
  rw [← loss_le_iff positive]
  have share := loss_pos positive
  constructor
  · intro kept
    have here := kept (norm.mean + 1)
    rw [restore_apply positive inverse, abs_neg, abs_mul, abs_of_pos share,
      add_sub_cancel_left, abs_one, one_mul] at here
    exact here
  · intro small v
    rw [restore_apply positive inverse, abs_neg, abs_mul, abs_of_pos share, div_eq_mul_one_div]
    exact mul_le_mul_of_nonneg_left small (abs_nonneg _)

end

/-- The mix can be normalised, and every value comes back to within a ten-thousandth of its
distance from the mean. -/
def KeepsLevel (mix : Audio ℝ) : Prop :=
  ∃ norm, Normalisation.of Real.sqrt mix = some norm ∧
    ∀ v, |norm.restore (norm.apply v) - v| ≤ |v - norm.mean| / 10000

theorem floor_le_sqrt_iff (var : ℝ) :
    9999 * stdFloor ≤ max (Real.sqrt var) stdFloor ↔ (9999 * stdFloor) ^ 2 ≤ var := by
  have floor := stdFloor_pos (K := ℝ)
  have above : stdFloor < 9999 * (stdFloor : ℝ) := by linarith
  rw [le_max_iff, or_iff_left (not_le.mpr above), Real.le_sqrt' (by linarith)]

/-- A track keeps its level exactly when it has no frames, or its mono mixdown deviates far
enough from its mean. -/
theorem level_kept_iff (mix : Audio ℝ) :
    KeepsLevel mix ↔
      mix.Readable ∧ (mix.frames = 0 ∨ (9999 * stdFloor) ^ 2 ≤ monoVariance mix) := by
  by_cases silent : mix.frames = 0
  · have readable : mix.Readable := fun ch _ => silent ▸ Nat.zero_le _
    -- The figures of a track without frames.
    let norm : Normalisation ℝ := ⟨0, 1, 1 / (1 + stdFloor)⟩
    have positive : 0 < norm.std := one_pos
    have kept := (Normalisation.kept_iff positive rfl).mpr (by norm_num [norm, stdFloor])
    exact iff_of_true ⟨norm, Normalisation.of_silent _ silent, kept⟩ ⟨readable, .inl silent⟩
  · constructor
    · rintro ⟨norm, ended, kept⟩
      have readable := (Normalisation.of_some ended).1
      rw [Normalisation.of_heard _ silent readable] at ended
      cases ended
      refine ⟨readable, .inr ?_⟩
      rw [← floor_le_sqrt_iff]
      exact (Normalisation.kept_iff (lt_max_of_lt_right stdFloor_pos) rfl).mp kept
    · rintro ⟨readable, deviates⟩
      have far := deviates.resolve_left silent
      rw [← floor_le_sqrt_iff] at far
      exact ⟨_, Normalisation.of_heard _ silent readable,
        (Normalisation.kept_iff (lt_max_of_lt_right stdFloor_pos) rfl).mpr far⟩

/-- One frame of full antiphase, which has no mono mixdown, comes back at half its level. -/
theorem antiphase_is_halved :
    Normalisation.of Real.sqrt ⟨[[1], [-1]], 44100⟩ =
        some ⟨0, stdFloor, 1 / (stdFloor + stdFloor)⟩ ∧
      (⟨0, stdFloor, 1 / (stdFloor + stdFloor)⟩ : Normalisation ℝ).restore
        ((⟨0, stdFloor, 1 / (stdFloor + stdFloor)⟩ : Normalisation ℝ).apply 1) = 1 / 2 ∧
      ¬ KeepsLevel ⟨[[1], [-1]], 44100⟩ := by
  have floor := stdFloor_pos (K := ℝ)
  have mean : monoMean (⟨[[1], [-1]], 44100⟩ : Audio ℝ) = 0 := by
    simp [monoMean, monoAt, Audio.frames, Audio.channels]
  have var : monoVariance (⟨[[1], [-1]], 44100⟩ : Audio ℝ) = 0 := by
    simp [monoVariance, mean, monoAt, Audio.frames, Audio.channels]
  have heard : (⟨[[1], [-1]], 44100⟩ : Audio ℝ).frames ≠ 0 := by simp [Audio.frames]
  have given := Normalisation.of_heard Real.sqrt heard
    (by simp [Audio.Readable, Audio.frames])
  rw [mean, var, Real.sqrt_zero, max_eq_right floor.le] at given
  refine ⟨given, ?_, ?_⟩
  · simp only [Normalisation.restore, Normalisation.apply]
    field_simp
    norm_num
  · rw [level_kept_iff, var]
    rintro ⟨-, silent | far⟩
    · simp [Audio.frames] at silent
    · have positive : (0 : ℝ) < (9999 * stdFloor) ^ 2 := by positivity
      linarith

end Stemd.Core
