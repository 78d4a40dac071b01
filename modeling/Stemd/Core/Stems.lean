import Mathlib.Algebra.BigOperators.Group.List.Basic
import Stemd.Core.Pcm

/-! The stems that are shipped, and the part a player rebuilds from them and the mix.

Stems need not have the channels or the length of the mix: where one has ended it is
silent. -/

set_option autoImplicit false

namespace Stemd.Core

def shippedNames : List String := ["harmonics", "vocals"]

/-- The part a player reconstructs rather than receiving. -/
def derivedName : String := "drums"

structure Stems (F : Type) where
  shipped : List (String × Audio F)
  deriving DecidableEq

variable {F : Type}

def Audio.sample? (audio : Audio F) (c i : Nat) : Option F := audio.data[c]?.bind (·[i]?)

section

variable [Zero F]

def Audio.at (audio : Audio F) (c i : Nat) : F := (audio.sample? c i).getD 0

def Audio.subtract [Sub F] (out stem : Audio F) : Audio F :=
  { out with data := out.data.mapIdx fun c ch => ch.mapIdx fun i sample => sample - stem.at c i }

/-- The derived part as the player reconstructs it: the mix without the shipped stems. -/
def Stems.derivedPart [Sub F] (stems : Stems F) (mix : Audio F) : Audio F :=
  stems.shipped.foldl (fun out stem => out.subtract stem.2) mix

end

section

variable [AddCommGroup F]

theorem Audio.subtract_sample? (out stem : Audio F) (c i : Nat) :
    (out.subtract stem).sample? c i = (out.sample? c i).map (· - stem.at c i) := by
  simp only [Audio.sample?, Audio.subtract, List.getElem?_mapIdx]
  cases out.data[c]? with
  | none => rfl
  | some ch => simp

theorem Stems.derivedPart_sample? (stems : Stems F) (mix : Audio F) (c i : Nat) :
    (stems.derivedPart mix).sample? c i =
      (mix.sample? c i).map (· - (stems.shipped.map fun stem => stem.2.at c i).sum) := by
  obtain ⟨shipped⟩ := stems
  simp only [Stems.derivedPart]
  induction shipped generalizing mix with
  | nil => simp
  | cons stem rest ih =>
      rw [List.foldl_cons, ih, Audio.subtract_sample?, Option.map_map]
      congr 1
      funext sample
      simp [sub_sub]

end

theorem Stems.derivedPart_sampleRate [Zero F] [Sub F] (stems : Stems F) (mix : Audio F) :
    (stems.derivedPart mix).sampleRate = mix.sampleRate := by
  obtain ⟨shipped⟩ := stems
  simp only [Stems.derivedPart]
  induction shipped generalizing mix with
  | nil => rfl
  | cons stem rest ih => exact ih (mix.subtract stem.2)

end Stemd.Core
