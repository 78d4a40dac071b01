import Mathlib.Algebra.Ring.Nat
import Mathlib.Data.Nat.Bits

/-! The part of IEEE 754 single precision that the sample codecs use: decoding a
word, one correctly rounded product, clamping to the unit interval and rounding to
an integer. Values are words, so a comparison of samples is a comparison of bits. -/

set_option autoImplicit false

namespace Stemd.Core

abbrev F32 := BitVec 32

namespace F32

/-- What a word denotes; `finite` is `± mantissa * 2 ^ exponent`. -/
inductive Value where
  | nan
  | infinite (negative : Bool)
  | finite (negative : Bool) (mantissa : Nat) (exponent : Int)
  deriving DecidableEq, Repr

def value (word : F32) : Value :=
  let bits := word.toNat
  let negative := decide (2 ^ 31 ≤ bits)
  let biased : Nat := bits / 2 ^ 23 % 2 ^ 8
  let fraction := bits % 2 ^ 23
  if biased = 255 then if fraction = 0 then .infinite negative else .nan
  else if biased = 0 then .finite negative fraction (-149)
  else .finite negative (fraction + 2 ^ 23) ((biased : Int) - 150)

def pack (negative : Bool) (magnitude : Nat) : F32 :=
  BitVec.ofNat 32 ((if negative then 2 ^ 31 else 0) + magnitude)

def canonicalNan : F32 := pack false (255 * 2 ^ 23 + 2 ^ 22)

/-- `n / 2 ^ shift`, to the nearest and to even on a tie. -/
def shiftRound (n shift : Nat) : Nat :=
  let whole := n / 2 ^ shift
  let rest := 2 * (n % 2 ^ shift)
  if rest < 2 ^ shift then whole
  else if 2 ^ shift < rest then whole + 1
  else whole + whole % 2

/-- The nearest word to `± mantissa * 2 ^ exponent`. -/
def encode (negative : Bool) (mantissa : Nat) (exponent : Int) : F32 :=
  if mantissa = 0 then pack negative 0
  else
    let unit := max (exponent + (mantissa.log2 : Int) - 23) (-149)
    let rounded :=
      if exponent < unit then shiftRound mantissa (unit - exponent).toNat
      else mantissa * 2 ^ (exponent - unit).toNat
    -- Rounding up to the next power of two carries into the exponent by itself.
    let magnitude := (unit + 149).toNat * 2 ^ 23 + rounded
    pack negative (min magnitude (255 * 2 ^ 23))

def mul (a b : F32) : F32 :=
  match a.value, b.value with
  | .nan, _ | _, .nan => canonicalNan
  | .infinite s, .infinite t => pack (s ^^ t) (255 * 2 ^ 23)
  | .infinite s, .finite t m _ | .finite s m _, .infinite t =>
      if m = 0 then canonicalNan else pack (s ^^ t) (255 * 2 ^ 23)
  | .finite s m e, .finite t n f => encode (s ^^ t) (m * n) (e + f)

/-- `m * 2 ^ e` to the nearest integer, half away from zero. -/
def roundMagnitude (mantissa : Nat) (exponent : Int) : Nat :=
  if 0 ≤ exponent then mantissa * 2 ^ exponent.toNat
  else (mantissa + 2 ^ ((-exponent).toNat - 1)) / 2 ^ (-exponent).toNat

def exceedsOne (mantissa : Nat) (exponent : Int) : Bool :=
  if 0 ≤ exponent then decide (1 < mantissa * 2 ^ exponent.toNat)
  else decide (2 ^ (-exponent).toNat < mantissa)

/-- `v.clamp(-1.0, 1.0)`; a NaN passes through. -/
def clampUnit (word : F32) : F32 :=
  match word.value with
  | .nan => word
  | .infinite negative => encode negative 1 0
  | .finite negative mantissa exponent =>
      if exceedsOne mantissa exponent then encode negative 1 0 else word

/-- `v.round() as i16`: half away from zero, saturating, zero for NaN. -/
def roundToI16 (word : F32) : BitVec 16 :=
  match word.value with
  | .nan => 0
  | .infinite negative => BitVec.ofInt 16 (if negative then -32768 else 32767)
  | .finite negative mantissa exponent =>
      let magnitude := roundMagnitude mantissa exponent
      BitVec.ofInt 16
        (if negative then -(min magnitude 32768 : Nat) else (min magnitude 32767 : Nat))

/-- `f32::from(v) / 32768.0`, which is exact. -/
def fromS16 (v : BitVec 16) : F32 :=
  encode (decide (v.toInt < 0)) v.toInt.natAbs (-15)

end F32

end Stemd.Core
