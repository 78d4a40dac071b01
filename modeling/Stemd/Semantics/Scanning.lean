import Stemd.Semantics.Framing

/-! Looking through a buffer by position.

A slice is there only where the buffer holds all of it. A text is looked for from the front, so
what is found is the first place that spells it. -/

set_option autoImplicit false

namespace Stemd.Semantics.Scanning

open Framing

/-- `bytes[start..stop]`, where the buffer holds it. -/
def slice (bytes : Bytes) (start stop : Nat) : Option Bytes :=
  if start ≤ stop ∧ stop ≤ bytes.length then some ((bytes.drop start).take (stop - start))
  else none

/-- The value of a field that starts with its highest byte. -/
def bigEndian (bytes : Bytes) : Nat := bytes.foldl (fun value byte => 256 * value + byte.toNat) 0

def windows (size : Nat) (bytes : Bytes) : List Bytes :=
  (List.range (bytes.length + 1 - size)).map fun start => (bytes.drop start).take size

def find (hay needle : Bytes) : Option Nat :=
  (windows needle.length hay).findIdx? (· = needle)

def Spelled (needle hay : Bytes) (i : Nat) : Prop := (hay.drop i).take needle.length = needle

instance (needle hay : Bytes) (i : Nat) : Decidable (Spelled needle hay i) :=
  inferInstanceAs (Decidable (_ = _))

variable {needle hay : Bytes} {i j : Nat}

theorem slice_some {start stop : Nat} (upward : start ≤ stop) (held : stop ≤ hay.length) :
    slice hay start stop = some ((hay.drop start).take (stop - start)) := if_pos ⟨upward, held⟩

theorem slice_none {start stop : Nat} (beyond : hay.length < stop) :
    slice hay start stop = none := if_neg fun held => by omega

theorem slice_drop {start a b : Nat} (held : start ≤ hay.length) :
    slice hay (start + a) (start + b) = slice (hay.drop start) a b := by
  have bounds : start + a ≤ start + b ∧ start + b ≤ hay.length ↔
      a ≤ b ∧ b ≤ (hay.drop start).length := by
    rw [List.length_drop]
    omega
  simp only [slice, bounds, List.drop_drop, Nat.add_sub_add_left]

theorem slice_take {size a b : Nat} (within : b ≤ size) :
    slice (hay.take size) a b = slice hay a b := by
  have bounds : a ≤ b ∧ b ≤ (hay.take size).length ↔ a ≤ b ∧ b ≤ hay.length := by
    rw [List.length_take]
    omega
  simp only [slice, bounds, List.drop_take, List.take_take]
  split
  · rw [Nat.min_eq_left (by omega)]
  · rfl

theorem Spelled.inside (spelled : Spelled needle hay i) (text : needle ≠ []) :
    i + needle.length ≤ hay.length := by
  have long := congrArg List.length spelled
  have some : 0 < needle.length := List.length_pos_iff.mpr text
  simp only [List.length_take, List.length_drop] at long
  omega

theorem Spelled.letter (spelled : Spelled needle hay i) {d : Nat} (within : d < needle.length) :
    hay[i + d]? = needle[d]? := by
  rw [← List.getElem?_drop, ← List.getElem?_take_of_lt within, spelled]

/-- A text whose first letter does not come again in it does not stand across itself. -/
theorem Spelled.apart (first : Spelled needle hay i) (second : Spelled needle hay j)
    (once : ∀ d, 0 < d → d < needle.length → needle[d]? ≠ needle[0]?) (later : i < j) :
    i + needle.length ≤ j := by
  by_contra across
  have within : j - i < needle.length := by omega
  -- The first letter would stand inside the text that is spelled before it.
  apply once (j - i) (by omega) within
  rw [← first.letter within, ← second.letter (by omega : 0 < needle.length)]
  congr 1
  omega

theorem Spelled.drop (start : Nat) :
    Spelled needle (hay.drop start) i ↔ Spelled needle hay (start + i) := by
  rw [Spelled, List.drop_drop, Spelled]

theorem window_spells (within : i < (windows needle.length hay).length) :
    (windows needle.length hay)[i] = needle ↔ Spelled needle hay i := by
  simp only [windows, List.getElem_map, List.getElem_range, Spelled]

theorem find_some (found : find hay needle = some i) :
    Spelled needle hay i ∧ ∀ j < i, ¬ Spelled needle hay j := by
  obtain ⟨within, here, before⟩ := List.findIdx?_eq_some_iff_getElem.mp found
  refine ⟨(window_spells within).mp (of_decide_eq_true here), fun j earlier spelled => ?_⟩
  exact before j earlier (decide_eq_true ((window_spells _).mpr spelled))

theorem find_none (text : needle ≠ []) (missing : find hay needle = none) (i : Nat) :
    ¬ Spelled needle hay i := by
  intro spelled
  have inside := spelled.inside text
  have within : i < (windows needle.length hay).length := by
    simp only [windows, List.length_map, List.length_range]
    omega
  have other := List.findIdx?_eq_none_iff.mp missing _ (List.getElem_mem within)
  exact of_decide_eq_false other ((window_spells within).mpr spelled)

end Stemd.Semantics.Scanning
