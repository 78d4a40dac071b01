import Stemd.Client.Accuracy

/-! How the parts are written.

One gain for all of them, so that they can be auditioned against each other, and low enough that
nothing clips. What the files come to together is then the track at that gain, but for what each of
them was rounded by. -/

set_option autoImplicit false

namespace Stemd.Client

open Stemd.Core Stemd.Semantics Stemd.Server

inductive Encoding where
  /-- 16-bit FLAC, scaled by a shared gain so the files stay comparable. -/
  | flac (gain : ℚ)
  /-- Unscaled float32 wav. -/
  | wavF32
  deriving DecidableEq

def loudest (parts : List Part) : ℚ :=
  (parts.flatMap fun part => part.samples.flatten).foldl (fun acc v => max acc |v|) 0

/-- Pick an encoding, scaling to fit 16 bits when that is where it is going. -/
def Encoding.choose (parts : List Part) (wavF32 : Bool) : Encoding :=
  if wavF32 then .wavF32
  else .flac (if loudest parts ≤ 1 then 1 else 1 / loudest parts)

inductive WriteError where
  /-- `cannot encode zero channels to flac` -/
  | noChannels
  /-- A channel that is shorter than the first, which panics. -/
  | ragged
  deriving DecidableEq, Repr

def interleaved (planar : Planar) (gain : ℚ) : Except WriteError (List (BitVec 16)) :=
  match planar with
  | [] => .error .noChannels
  | first :: _ => do
      let frames ← (List.range first.length).mapM fun i =>
        planar.mapM fun ch => parsed (ch[i]?.map fun v => quantiseS16 (v * gain)) .ragged
      return frames.flatten

def integers (planar : Planar) (gain : ℚ) : List (List (BitVec 16)) :=
  planar.map (·.map fun v => quantiseS16 (v * gain))

theorem interleaved_eq {planar : Planar} {frames : Nat} (some : planar ≠ [])
    (lengths : ∀ ch ∈ planar, ch.length = frames) (gain : ℚ) :
    interleaved planar gain = .ok ((List.range frames).flatMap fun i =>
      (integers planar gain).map fun ch => ch.getD i 0) := by
  have each : ∀ i ∈ List.range frames, (planar.mapM fun ch =>
      parsed (ch[i]?.map fun v => quantiseS16 (v * gain)) WriteError.ragged) =
        pure ((integers planar gain).map fun ch => ch.getD i 0) := by
    intro i inside
    rw [integers, List.map_map]
    refine mapM_eq_map fun ch member => ?_
    have below : i < ch.length := lengths ch member ▸ List.mem_range.mp inside
    rw [List.getElem?_eq_getElem below, Function.comp_apply, List.getD_eq_getElem?_getD,
      List.getElem?_map, List.getElem?_eq_getElem below]
    rfl
  cases planar with
  | nil => exact absurd rfl some
  | cons first rest =>
      rw [← lengths first List.mem_cons_self] at each ⊢
      unfold interleaved
      dsimp only
      rw [mapM_eq_map each, List.flatMap_def]
      rfl

/-- The gain is the highest at which nothing clips. -/
structure Fit (parts : List Part) (gain : ℚ) : Prop where
  positive : 0 < gain
  atMost : gain ≤ 1
  unclipped : ∀ part ∈ parts, ∀ c i v, sample? part.samples c i = some v → InScale (v * gain)
  highest : gain = 1 ∨ ∃ part ∈ parts, ∃ ch ∈ part.samples, ∃ v ∈ ch, |v * gain| = 1

theorem foldl_max_mem (samples : List ℚ) (low : ℚ) :
    samples.foldl (fun peak v => max peak |v|) low = low ∨
      ∃ v ∈ samples, samples.foldl (fun peak v => max peak |v|) low = |v| := by
  induction samples generalizing low with
  | nil => exact .inl rfl
  | cons first rest ih =>
      rcases ih (max low |first|) with same | ⟨v, member, is⟩
      · rcases max_choice low |first| with kept | new
        · exact .inl (same.trans kept)
        · exact .inr ⟨first, List.mem_cons_self, same.trans new⟩
      · exact .inr ⟨v, List.mem_cons_of_mem _ member, is⟩

theorem mem_samples {parts : List Part} {v : ℚ} :
    (v ∈ parts.flatMap fun part => part.samples.flatten) ↔
      ∃ part ∈ parts, ∃ ch ∈ part.samples, v ∈ ch := by
  simp only [List.mem_flatMap, List.mem_flatten]

theorem choose_fit {parts : List Part} {gain : ℚ}
    (chosen : Encoding.choose parts false = .flac gain) : Fit parts gain := by
  have is : (if loudest parts ≤ 1 then 1 else 1 / loudest parts) = gain := by
    injection chosen
  have below (part : Part) (member : part ∈ parts) (c i : Nat) (v : ℚ)
      (here : sample? part.samples c i = some v) : |v| ≤ loudest parts := by
    obtain ⟨ch, channel, inside⟩ := Option.bind_eq_some_iff.mp here
    exact (le_foldl_max 0).2 v (mem_samples.mpr
      ⟨part, member, ch, List.mem_of_getElem? channel, List.mem_of_getElem? inside⟩)
  by_cases within : loudest parts ≤ 1
  · rw [if_pos within] at is
    subst is
    refine ⟨one_pos, le_rfl, fun part member c i v here => ?_, .inl rfl⟩
    rw [mul_one]
    exact (below part member c i v here).trans within
  · rw [if_neg within] at is
    subst is
    have above : 1 < loudest parts := not_le.mp within
    have positive : 0 < loudest parts := one_pos.trans above
    refine ⟨one_div_pos.mpr positive, (div_le_one positive).mpr above.le,
      fun part member c i v here => ?_, .inr ?_⟩
    · rw [InScale, mul_one_div, abs_div, abs_of_pos positive, div_le_one positive]
      exact below part member c i v here
    · rcases foldl_max_mem (parts.flatMap fun part => part.samples.flatten) 0 with silent | loud
      · exact absurd silent positive.ne'
      · obtain ⟨v, member, is⟩ := loud
        obtain ⟨part, there, ch, channel, inside⟩ := mem_samples.mp member
        refine ⟨part, there, ch, channel, v, inside, ?_⟩
        rw [mul_one_div, abs_div, abs_of_pos positive, ← is]
        exact div_self positive.ne'

/-- A sample is written at most half a unit off. -/
theorem integers_within {planar : Planar} {gain : ℚ}
    (unclipped : ∀ c i v, sample? planar c i = some v → InScale (v * gain)) (c i : Nat) :
    |(integerAt (integers planar gain) c i : ℚ) - sampleAt planar c i * gain * 32767| ≤ 1 / 2 := by
  have written : integerAt (integers planar gain) c i =
      ((sample? planar c i).map fun v => (quantiseS16 (v * gain)).toInt).getD 0 := by
    simp only [integerAt, integers, sample?, List.getElem?_map]
    cases planar[c]? with
    | none => rfl
    | some ch =>
        simp only [Option.map_some, Option.bind_some, List.getElem?_map, Option.map_map]
        rfl
  rw [written, sampleAt]
  cases here : sample? planar c i with
  | none => simp
  | some v =>
      simp only [Option.map_some, Option.getD_some]
      rw [quantiseS16_toInt (unclipped c i v here)]
      exact roundAway_error _

def hotParts : List Part :=
  [⟨.downloaded, "vocals", [[3 / 2]]⟩, ⟨.rebuiltHere, "drums", [[-1 / 2]]⟩]

end Stemd.Client
