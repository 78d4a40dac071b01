import Mathlib.Data.Rat.Floor
import Stemd.Core.Pcm
import Stemd.Semantics.Rounding

/-! The sample operations in exact arithmetic.

A sample is a rational number. Decoding, scaling and clamping lose nothing, so that what a
16-bit payload loses is one rounding. -/

set_option autoImplicit false

namespace Stemd.Core

open Stemd.Semantics

def F32.toRat (word : F32) : Option ℚ :=
  match word.value with
  | .finite negative mantissa exponent =>
      some ((if negative then -1 else 1) * mantissa * 2 ^ exponent)
  | _ => none

/-- The nearest word. What lies below `2 ^ -200` only decides whether a tie is one. -/
def F32.ofRat (v : ℚ) : F32 :=
  let scaled : ℚ := |v| * 2 ^ 200
  let whole : Nat := ⌊scaled⌋.toNat
  F32.encode (decide (v < 0)) (2 * whole + if scaled = whole then 0 else 1) (-201)

/-- A word that denotes no number is read as silence. -/
instance : Sample ℚ where
  ofWord word := (F32.toRat word).getD 0
  toWord := F32.ofRat
  fromS16 v := v.toInt / 32768
  clampUnit v := max (-1) (min v 1)
  mul := (· * ·)
  one := 1
  floatToS16 := 32767
  roundToI16 v := BitVec.ofInt 16 (max (-32768) (min (roundAway v) 32767))

def InScale (v : ℚ) : Prop := |v| ≤ 1

instance (v : ℚ) : Decidable (InScale v) := inferInstanceAs (Decidable (|v| ≤ 1))

theorem fromS16_eq (v : BitVec 16) : Sample.fromS16 v = (v.toInt / 32768 : ℚ) := rfl

theorem quantiseS16_toInt {v : ℚ} (inScale : InScale v) :
    (quantiseS16 v).toInt = roundAway (v * 32767) := by
  obtain ⟨low, high⟩ := abs_le.mp inScale
  have clamped : max (-1) (min v 1) = v := by rw [min_eq_left high, max_eq_right low]
  have within : |v * 32767| ≤ (32767 : ℤ) := by
    push_cast
    exact abs_le.mpr ⟨by linarith, by linarith⟩
  obtain ⟨below, above⟩ := abs_le.mp (roundAway_abs_le within)
  have saturated : max (-32768) (min (roundAway (v * 32767)) 32767) = roundAway (v * 32767) := by
    rw [min_eq_left above, max_eq_right (by omega)]
  have quantised : quantiseS16 v = BitVec.ofInt 16 (roundAway (v * 32767)) := by
    change BitVec.ofInt 16 (max (-32768) (min (roundAway (max (-1) (min v 1) * 32767)) 32767)) = _
    rw [clamped, saturated]
  rw [quantised, BitVec.toInt_ofInt]
  exact Int.bmod_eq_of_le (by omega) (by omega)

end Stemd.Core
