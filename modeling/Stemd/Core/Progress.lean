import Mathlib.Algebra.Order.Field.Rat
import Mathlib.Algebra.Order.Field.Basic
import Mathlib.Tactic.Linarith
import Mathlib.Tactic.NormNum
import Mathlib.Tactic.Positivity

/-! Progress values as a client reads them.

The source carries `fraction` as an `f32`; the stage weights are read here as the
exact rationals they are written as. Counters are 32 bits wide and wrap. -/

set_option autoImplicit false

namespace Stemd.Core

inductive Stage where
  | queued
  | analysing
  | separating
  | reconstructing
  | writing
  | done
  | failed
  | cancelled
  deriving DecidableEq, Repr

def Stage.isTerminal : Stage → Bool
  | .done | .failed | .cancelled => true
  | _ => false

def stageFloor : Stage → ℚ
  | .queued => 0
  | .analysing => 2 / 100
  | .separating => 10 / 100
  | .reconstructing => 90 / 100
  | .writing => 96 / 100
  | .done | .failed | .cancelled => 1

def stageCeiling : Stage → ℚ
  | .queued => 2 / 100
  | .analysing => 10 / 100
  | .separating => 90 / 100
  | .reconstructing => 96 / 100
  | .writing => 1
  | .done | .failed | .cancelled => 1

structure Progress where
  stage : Stage
  completed : UInt32
  total : UInt32
  fraction : ℚ
  detail : Option String

def Progress.new (stage : Stage) : Progress where
  stage := stage
  completed := 0
  total := 0
  fraction := stageFloor stage
  detail := none

def Progress.counted (stage : Stage) (completed total : UInt32) : Progress where
  stage := stage
  completed := completed
  total := total
  fraction :=
    stageFloor stage +
      (if total = 0 then 0 else (completed.toNat : ℚ) / total.toNat) *
        (stageCeiling stage - stageFloor stage)
  detail := none

def Progress.withDetail (progress : Progress) (detail : String) : Progress :=
  { progress with detail := some detail }

@[simp] theorem Progress.new_stage (stage : Stage) : (Progress.new stage).stage = stage := rfl

@[simp] theorem Progress.counted_stage (stage : Stage) (completed total : UInt32) :
    (Progress.counted stage completed total).stage = stage := rfl

@[simp] theorem Progress.withDetail_stage (progress : Progress) (detail : String) :
    (progress.withDetail detail).stage = progress.stage := rfl

theorem stageFloor_le_ceiling (stage : Stage) : stageFloor stage ≤ stageCeiling stage := by
  cases stage <;> norm_num [stageFloor, stageCeiling]

/-- A counter within its total never leaves the span of its stage. -/
theorem Progress.counted_fraction_mem (stage : Stage) {completed total : UInt32}
    (within : completed ≤ total) :
    stageFloor stage ≤ (Progress.counted stage completed total).fraction ∧
      (Progress.counted stage completed total).fraction ≤ stageCeiling stage := by
  have span := stageFloor_le_ceiling stage
  simp only [Progress.counted]
  split
  · constructor <;> linarith
  · rename_i nonzero
    have positive : (0 : ℚ) < total.toNat := by
      have : total.toNat ≠ 0 := fun zero => nonzero (UInt32.toNat_inj.mp zero)
      exact_mod_cast Nat.pos_of_ne_zero this
    have share : (completed.toNat : ℚ) / total.toNat ≤ 1 := by
      rw [div_le_one positive]
      exact_mod_cast UInt32.le_iff_toNat_le.mp within
    have nonneg : (0 : ℚ) ≤ (completed.toNat : ℚ) / total.toNat := by positivity
    constructor <;> nlinarith

end Stemd.Core
