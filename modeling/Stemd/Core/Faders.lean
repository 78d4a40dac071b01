import Mathlib.Tactic.Ring
import Stemd.Core.Stems

/-! The three faders, over stems that are held and one part that is not.

Mixing never builds the third part: substituting what it would be leaves one factor for the
mix and one for each stem. Sample arithmetic is exact here. -/

set_option autoImplicit false

namespace Stemd.Core

structure PartGains (F : Type) where
  drums : F
  harmonics : F
  vocals : F
  deriving DecidableEq

variable {F : Type}

def PartGains.unity [One F] : PartGains F := ⟨1, 1, 1⟩

def PartGains.get [Zero F] (gains : PartGains F) (part : String) : F :=
  if part = "drums" then gains.drums
  else if part = "harmonics" then gains.harmonics
  else if part = "vocals" then gains.vocals
  else 0

def PartGains.isUnity [One F] [DecidableEq F] (gains : PartGains F) : Bool :=
  gains = PartGains.unity

def Stems.stem (stems : Stems F) (name : String) : Option (Audio F) :=
  (stems.shipped.find? fun stem => stem.1 = name).map (·.2)

section

variable [CommRing F]

def Stems.faded (stems : Stems F) (mix : Audio F) (gains : PartGains F) : Audio F :=
  let base := gains.get derivedName
  let terms := stems.shipped.map fun stem => (gains.get stem.1 - base, stem.2)
  { mix with data := mix.data.mapIdx fun c ch => ch.mapIdx fun i sample =>
      terms.foldl (fun acc term => acc + term.1 * term.2.at c i) (base * sample) }

def Stems.mix [DecidableEq F] (stems : Stems F) (mix : Audio F) (gains : PartGains F) : Audio F :=
  if gains.isUnity then mix else stems.faded mix gains

def Stems.part (stems : Stems F) (name : String) (mix : Audio F) : Option (Audio F) :=
  if name = derivedName then some (stems.derivedPart mix) else stems.stem name

theorem foldl_terms (shipped : List (F × F)) (base sample : F) :
    (shipped.map fun stem => (stem.1 - base, stem.2)).foldl
        (fun acc term => acc + term.1 * term.2) (base * sample) =
      base * (sample - (shipped.map (·.2)).sum) +
        (shipped.map fun stem => stem.1 * stem.2).sum := by
  have general : ∀ start : F,
      (shipped.map fun stem => (stem.1 - base, stem.2)).foldl
          (fun acc term => acc + term.1 * term.2) start =
        start - base * (shipped.map (·.2)).sum + (shipped.map fun stem => stem.1 * stem.2).sum := by
    induction shipped with
    | nil =>
        intro start
        simp
    | cons stem rest ih =>
        intro start
        simp only [List.map_cons, List.foldl_cons, List.sum_cons]
        rw [ih]
        ring
  rw [general]
  ring

/-- Away from unity, each sample is the derived part and the stems, each at its gain. -/
theorem Stems.faded_sample? (stems : Stems F) (mix : Audio F) (gains : PartGains F) (c i : Nat) :
    (stems.faded mix gains).sample? c i = ((stems.derivedPart mix).sample? c i).map fun part =>
      gains.get derivedName * part +
        (stems.shipped.map fun stem => gains.get stem.1 * stem.2.at c i).sum := by
  rw [Stems.derivedPart_sample?, Option.map_map]
  simp only [Audio.sample?, Stems.faded, List.getElem?_mapIdx]
  cases mix.data[c]? with
  | none => rfl
  | some ch =>
      simp only [Option.map_some, Option.bind_some, List.getElem?_mapIdx]
      congr 1
      funext sample
      have both := foldl_terms (stems.shipped.map fun stem => (gains.get stem.1, stem.2.at c i))
        (gains.get derivedName) sample
      simpa only [List.map_map, List.foldl_map, Function.comp_def] using both

end

theorem PartGains.isUnity_iff [One F] [DecidableEq F] (gains : PartGains F) :
    gains.isUnity = true ↔ gains = PartGains.unity := decide_eq_true_iff

/-- Each sample of the two stems that ship and the part that does not, at its gain. -/
theorem Stems.mix_sample? [CommRing F] [DecidableEq F] (mix harmonics vocals : Audio F)
    (gains : PartGains F) (c i : Nat) :
    ((Stems.mk [("harmonics", harmonics), ("vocals", vocals)]).mix mix gains).sample? c i =
      (((Stems.mk [("harmonics", harmonics), ("vocals", vocals)]).derivedPart mix).sample?
        c i).map fun drums =>
          gains.drums * drums + gains.harmonics * harmonics.at c i +
            gains.vocals * vocals.at c i := by
  unfold Stems.mix
  by_cases unity : gains.isUnity = true
  · -- The short cut agrees with the formula it skips.
    obtain rfl := gains.isUnity_iff.mp unity
    rw [if_pos unity, Stems.derivedPart_sample?, Option.map_map]
    have same : ((fun drums => (PartGains.unity : PartGains F).drums * drums +
        (PartGains.unity : PartGains F).harmonics * harmonics.at c i +
        (PartGains.unity : PartGains F).vocals * vocals.at c i) ∘ fun sample =>
          sample - ([("harmonics", harmonics), ("vocals", vocals)].map fun stem =>
            stem.2.at c i).sum) = id := by
      funext sample
      simp only [PartGains.unity, List.map_cons, List.map_nil, List.sum_cons, List.sum_nil,
        Function.comp_apply, id_eq]
      ring
    rw [same, Option.map_id_fun, id_eq]
  · rw [if_neg unity, Stems.faded_sample?]
    congr 1
    funext drums
    have named : gains.get derivedName = gains.drums ∧ gains.get "harmonics" = gains.harmonics ∧
        gains.get "vocals" = gains.vocals := ⟨rfl, rfl, rfl⟩
    simp only [named, List.map_cons, List.map_nil, List.sum_cons, List.sum_nil]
    ring

/-- A part is what the player hears with its fader up and the other two down. -/
theorem Stems.part_eq_solo [CommRing F] [DecidableEq F] (mix harmonics vocals : Audio F)
    {name : String} {gains : PartGains F} (known : name ∈ ["drums", "harmonics", "vocals"])
    (up : gains.get name = 1)
    (down : ∀ other ∈ ["drums", "harmonics", "vocals"], other ≠ name → gains.get other = 0) :
    ∃ part, (Stems.mk [("harmonics", harmonics), ("vocals", vocals)]).part name mix = some part ∧
      ∀ c i, ((Stems.mk [("harmonics", harmonics), ("vocals", vocals)]).mix mix gains).sample?
        c i = (mix.sample? c i).map fun _ => part.at c i := by
  have drums : gains.get "drums" = gains.drums := rfl
  have middle : gains.get "harmonics" = gains.harmonics := rfl
  have sung : gains.get "vocals" = gains.vocals := rfl
  simp only [List.forall_mem_cons, List.not_mem_nil, false_implies, implies_true, and_true, drums,
    middle, sung] at down
  simp only [List.mem_cons, List.not_mem_nil, or_false] at known
  obtain ⟨noDrums, noHarmonics, noVocals⟩ := down
  rcases known with rfl | rfl | rfl
  · refine ⟨_, if_pos rfl, fun c i => ?_⟩
    have up : gains.drums = 1 := up
    have derived :=
      Stems.derivedPart_sample? ⟨[("harmonics", harmonics), ("vocals", vocals)]⟩ mix c i
    rw [Stems.mix_sample?, up, noHarmonics (by decide), noVocals (by decide), derived]
    cases here : mix.sample? c i with
    | none => rfl
    | some sample =>
        have heard : (Stems.derivedPart ⟨[("harmonics", harmonics), ("vocals", vocals)]⟩ mix).at
            c i = sample - (harmonics.at c i + vocals.at c i) := by
          rw [Audio.at, derived, here]
          simp
        simp [heard]
  · refine ⟨harmonics, by rfl, fun c i => ?_⟩
    have up : gains.harmonics = 1 := up
    rw [Stems.mix_sample?, noDrums (by decide), up, noVocals (by decide),
      Stems.derivedPart_sample?, Option.map_map]
    congr 1
    funext sample
    simp
  · refine ⟨vocals, by rfl, fun c i => ?_⟩
    have up : gains.vocals = 1 := up
    rw [Stems.mix_sample?, noDrums (by decide), noHarmonics (by decide), up,
      Stems.derivedPart_sample?, Option.map_map]
    congr 1
    funext sample
    simp

end Stemd.Core
