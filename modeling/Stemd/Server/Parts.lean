import Stemd.Core.Exact
import Stemd.Core.Mode1
import Stemd.Core.Stems

/-! The parts an entry stores, and whether the files add back to the track.

At the rate of the model nothing is converted, and in exact arithmetic the three parts are
the mix again. Each is quantised by itself: a mix sample comes back if what the two scales
and the two other roundings leave over is rounded away with the derived part. -/

set_option autoImplicit false

namespace Stemd.Server

open Stemd.Core
open Stemd.Semantics

section Convert

variable {F : Type} [Ring F]

def oneRate (filters : Filters F) (output : Output) (part : String × Audio F) :
    Except (String × ConvertError) (String × Audio F) :=
  match toRateWith filters part.2 (UInt32.ofNat output.rate.hz) output.dsp with
  | .ok converted => .ok (part.1, converted)
  | .error error => .error (part.1, error)

/-- The shipped stems, and the derived part if it was asked for, at the output rate. -/
def toOutputRate (filters : Filters F) (mix : Audio F) (stems : Stems F) (output : Output) :
    Except (String × ConvertError) (List (String × Audio F)) :=
  -- Derived at the native rate, and then put through the filter of the others.
  let derived := if output.derived then [(derivedName, stems.derivedPart mix)] else []
  (stems.shipped ++ derived).mapM (oneRate filters output)

theorem oneRate_native (filters : Filters F) {output : Output} {parts : List (String × Audio F)}
    (native : ∀ part ∈ parts, part.2.sampleRate = UInt32.ofNat output.rate.hz) :
    parts.mapM (oneRate filters output) = .ok parts := by
  have each : ∀ part ∈ parts, oneRate filters output part = pure (id part) := by
    intro part member
    rw [oneRate, ← native part member, toRateWith_native]
    rfl
  rw [mapM_eq_map each, List.map_id]
  rfl

end Convert

def peak (audio : Audio ℚ) : ℚ :=
  audio.data.foldl (fun peak ch => ch.foldl (fun peak v => max peak |v|) peak) 0

/-- `has_headroom`: only the float format has no ceiling. -/
def hasHeadroom : StemFormat → Bool
  | .pcm32 => true
  | _ => false

/-- Scale that keeps a stem inside the output format's range. -/
def transferGain (peak : ℚ) (format : StemFormat) : ℚ :=
  if hasHeadroom format ∨ peak ≤ 1 then 1 else 1 / peak

def quantised (audio : Audio ℚ) (gain : ℚ) : List (List (BitVec 16)) :=
  audio.data.map (·.map fun v => quantiseS16 (Sample.mul v gain))

/-- The parts as they are written: converted, and each quantised at a gain of its own. -/
def publishedParts (filters : Filters ℚ) (mix : Audio ℚ) (stems : Stems ℚ) (output : Output) :
    Except (String × ConvertError) (List (String × List (List (BitVec 16)))) := do
  let parts ← toOutputRate filters mix stems output
  return parts.map fun part =>
    (part.1, quantised part.2 (transferGain (peak part.2) output.format))

def FullScale (audio : Audio ℚ) : Prop := ∀ ch ∈ audio.data, ∀ v ∈ ch, InScale v

instance (audio : Audio ℚ) : Decidable (FullScale audio) :=
  inferInstanceAs (Decidable (∀ ch ∈ audio.data, ∀ v ∈ ch, InScale v))

theorem peak_le {audio : Audio ℚ} (fullScale : FullScale audio) : peak audio ≤ 1 := by
  refine List.foldlRecOn (motive := (· ≤ 1)) audio.data _ zero_le_one fun low below ch member => ?_
  exact List.foldlRecOn (motive := (· ≤ 1)) ch _ below fun low below v inside =>
    max_le below (fullScale ch member v inside)

theorem transferGain_of_fullScale {audio : Audio ℚ} (fullScale : FullScale audio)
    (format : StemFormat) : transferGain (peak audio) format = 1 :=
  if_pos (.inr (peak_le fullScale))

def integerAt (file : List (List (BitVec 16))) (c i : Nat) : ℤ :=
  ((file[c]?.bind (·[i]?)).map BitVec.toInt).getD 0

def decodedMix (samples : List (List (BitVec 16))) (rate : UInt32) : Audio ℚ :=
  ⟨samples.map (·.map Sample.fromS16), rate⟩

theorem decodedMix_sample? (samples : List (List (BitVec 16))) (rate : UInt32) (c i : Nat) :
    (decodedMix samples rate).sample? c i =
      (samples[c]?.bind (·[i]?)).map (Sample.fromS16 (F := ℚ)) := by
  simp only [Audio.sample?, decodedMix, List.getElem?_map]
  cases samples[c]? <;> simp

theorem integerAt_quantised {audio : Audio ℚ} (fullScale : FullScale audio) (c i : Nat) :
    integerAt (quantised audio 1) c i = roundAway (audio.at c i * 32767) := by
  simp only [integerAt, quantised, Audio.at, Audio.sample?, List.getElem?_map]
  cases channel : audio.data[c]? with
  | none => simp
  | some ch =>
      cases sample : ch[i]? with
      | none => simp [sample]
      | some v =>
          have inScale : InScale v :=
            fullScale ch (List.mem_of_getElem? channel) v (List.mem_of_getElem? sample)
          have unity : Sample.mul v 1 = v := mul_one v
          simp [sample, unity, quantiseS16_toInt inScale]

def rest (v : ℚ) : ℚ := v * 32767 - roundAway (v * 32767)

/-- What the difference of the two scales and the roundings of the two stems leave over for
a mix sample is less than half a unit, or half a unit that the derived sample is rounded
away from. -/
def Cancels (m : BitVec 16) (harmonics vocals : ℚ) : Prop :=
  let left := m.toInt / 32768 + rest harmonics + rest vocals
  |left| < 1 / 2 ∨ |left| = 1 / 2 ∧ 0 < left * (m.toInt / 32768 - harmonics - vocals)

instance (m : BitVec 16) (harmonics vocals : ℚ) : Decidable (Cancels m harmonics vocals) :=
  inferInstanceAs (Decidable (_ ∨ _))

/-- Three roundings give a mix sample back exactly if the leftover cancels. -/
theorem rounded_sum_iff (m : BitVec 16) (harmonics vocals : ℚ) :
    roundAway (harmonics * 32767) + roundAway (vocals * 32767) +
        roundAway ((m.toInt / 32768 - harmonics - vocals) * 32767 : ℚ) = m.toInt ↔
      Cancels m harmonics vocals := by
  have difference :
      ((m.toInt - roundAway (harmonics * 32767) - roundAway (vocals * 32767) : ℤ) : ℚ) -
        (m.toInt / 32768 - harmonics - vocals) * 32767 =
        m.toInt / 32768 + rest harmonics + rest vocals := by
    push_cast [rest]
    ring
  have sum : roundAway (harmonics * 32767) + roundAway (vocals * 32767) +
        roundAway ((m.toInt / 32768 - harmonics - vocals) * 32767 : ℚ) = m.toInt ↔
      roundAway ((m.toInt / 32768 - harmonics - vocals) * 32767 : ℚ) =
        m.toInt - roundAway (harmonics * 32767) - roundAway (vocals * 32767) := by
    constructor <;> intro same <;> omega
  have sign (left d : ℚ) : 0 < left * (d * 32767) ↔ 0 < left * d := by
    rw [← mul_assoc]
    exact mul_pos_iff_of_pos_right (by norm_num)
  rw [sum, roundAway_eq_iff, difference, sign]
  rfl

/-- Where the mix has a sample, the integers of the files there add up to it. -/
def AddBack (samples : List (List (BitVec 16))) (files : List (String × List (List (BitVec 16)))) :
    Prop :=
  ∀ c i m, samples[c]?.bind (·[i]?) = some m →
    (files.map fun file => integerAt file.2 c i).sum = m.toInt

def shippedStems (harmonics vocals : List (List ℚ)) (rate : UInt32) : Stems ℚ :=
  ⟨shippedNames.zip [⟨harmonics, rate⟩, ⟨vocals, rate⟩]⟩

section Native

variable {mix : Audio ℚ} {harmonics vocals : List (List ℚ)}
  (harmonicsScale : FullScale ⟨harmonics, mix.sampleRate⟩)
  (vocalsScale : FullScale ⟨vocals, mix.sampleRate⟩)
  (derivedScale : FullScale ((shippedStems harmonics vocals mix.sampleRate).derivedPart mix))

include harmonicsScale vocalsScale derivedScale

theorem publishedParts_native (filters : Filters ℚ) {output : Output}
    (asked : output.derived = true) (native : mix.sampleRate = UInt32.ofNat output.rate.hz) :
    publishedParts filters mix (shippedStems harmonics vocals mix.sampleRate) output =
      .ok [("harmonics", quantised ⟨harmonics, mix.sampleRate⟩ 1),
        ("vocals", quantised ⟨vocals, mix.sampleRate⟩ 1),
        (derivedName,
          quantised ((shippedStems harmonics vocals mix.sampleRate).derivedPart mix) 1)] := by
  have rates : ∀ part ∈ (shippedStems harmonics vocals mix.sampleRate).shipped ++
      [(derivedName, (shippedStems harmonics vocals mix.sampleRate).derivedPart mix)],
        part.2.sampleRate = UInt32.ofNat output.rate.hz := by
    intro part member
    rw [← native]
    rcases List.mem_append.mp member with shipped | derived
    · have two : part = ("harmonics", ⟨harmonics, mix.sampleRate⟩) ∨
          part = ("vocals", ⟨vocals, mix.sampleRate⟩) := by
        simpa [shippedStems, shippedNames] using shipped
      rcases two with rfl | rfl <;> rfl
    · obtain rfl := List.mem_singleton.mp derived
      exact Stems.derivedPart_sampleRate _ _
  simp only [publishedParts, toOutputRate, asked, if_true]
  rw [oneRate_native filters rates]
  simp only [shippedStems, shippedNames, List.zip_cons_cons, List.zip_nil_right, List.cons_append,
    List.nil_append, bind, Except.bind, pure, Except.pure, List.map_cons, List.map_nil,
    transferGain_of_fullScale harmonicsScale, transferGain_of_fullScale vocalsScale]
  rw [← transferGain_of_fullScale derivedScale output.format]
  rfl

theorem integers_sum {c i : Nat} {m : BitVec 16}
    (here : mix.sample? c i = some (Sample.fromS16 m)) :
    integerAt (quantised ⟨harmonics, mix.sampleRate⟩ 1) c i +
        integerAt (quantised ⟨vocals, mix.sampleRate⟩ 1) c i +
        integerAt (quantised ((shippedStems harmonics vocals mix.sampleRate).derivedPart mix) 1) c i =
          m.toInt ↔
      Cancels m (Audio.at ⟨harmonics, mix.sampleRate⟩ c i)
        (Audio.at ⟨vocals, mix.sampleRate⟩ c i) := by
  have derived : ((shippedStems harmonics vocals mix.sampleRate).derivedPart mix).at c i =
      m.toInt / 32768 - Audio.at ⟨harmonics, mix.sampleRate⟩ c i -
        Audio.at ⟨vocals, mix.sampleRate⟩ c i := by
    rw [Audio.at, Stems.derivedPart_sample?, here]
    simp only [shippedStems, shippedNames, List.zip_cons_cons, List.zip_nil_right, List.map_cons,
      List.map_nil, List.sum_cons, List.sum_nil, add_zero, Option.map_some, Option.getD_some,
      fromS16_eq]
    exact (sub_sub _ _ _).symm
  rw [integerAt_quantised harmonicsScale, integerAt_quantised vocalsScale,
    integerAt_quantised derivedScale, derived, rounded_sum_iff]

end Native

/-- At the native rate the three files add back to the track exactly if the leftover cancels
at every sample of it. -/
theorem partsAddBack_iff (filters : Filters ℚ) (samples : List (List (BitVec 16)))
    (harmonics vocals : List (List ℚ)) (output : Output) (rate : UInt32)
    (native : rate = UInt32.ofNat output.rate.hz) (asked : output.derived = true)
    (harmonicsScale : FullScale ⟨harmonics, rate⟩) (vocalsScale : FullScale ⟨vocals, rate⟩)
    (derivedScale :
      FullScale ((shippedStems harmonics vocals rate).derivedPart (decodedMix samples rate))) :
    (∃ files, publishedParts filters (decodedMix samples rate) (shippedStems harmonics vocals rate)
        output = .ok files ∧ AddBack samples files) ↔
      ∀ c i m, samples[c]?.bind (·[i]?) = some m →
        Cancels m (Audio.at ⟨harmonics, rate⟩ c i) (Audio.at ⟨vocals, rate⟩ c i) := by
  have published :=
    publishedParts_native harmonicsScale vocalsScale derivedScale filters asked native
  have sample : ∀ c i m, samples[c]?.bind (·[i]?) = some m →
      (decodedMix samples rate).sample? c i = some (Sample.fromS16 m) := by
    intro c i m here
    rw [decodedMix_sample?, here, Option.map_some]
  constructor
  · rintro ⟨files, done, back⟩ c i m here
    obtain rfl := Except.ok.inj (published.symm.trans done)
    refine (integers_sum harmonicsScale vocalsScale derivedScale (sample c i m here)).mp ?_
    simpa [add_assoc] using back c i m here
  · intro cancels
    refine ⟨_, published, fun c i m here => ?_⟩
    have sum := (integers_sum harmonicsScale vocalsScale derivedScale (sample c i m here)).mpr
      (cancels c i m here)
    simpa [add_assoc] using sum

def noFilters : Filters ℚ where
  general _ _ _ := none
  mode1 := ⟨List.replicate _ 0, List.length_replicate⟩
  par := 1

/-- Two channels of a mix, of which two stems take something at every sample. The first sample
would come back a unit short from silent stems. -/
theorem two_samples_add_back :
    ∃ files, publishedParts noFilters (decodedMix [[20000, 16384], [-8192, 100]] 44100)
        (shippedStems [[1 / 2, 1 / 4], [-1 / 4, 1 / 8]] [[1 / 4, 1 / 8], [1 / 8, -1 / 16]] 44100)
        ⟨.flac, .hz44100, true, .general⟩ = .ok files ∧
      AddBack [[20000, 16384], [-8192, 100]] files := by
  refine (partsAddBack_iff noFilters [[20000, 16384], [-8192, 100]]
    [[1 / 2, 1 / 4], [-1 / 4, 1 / 8]] [[1 / 4, 1 / 8], [1 / 8, -1 / 16]]
    ⟨.flac, .hz44100, true, .general⟩ 44100 rfl rfl (by decide +kernel) (by decide +kernel)
    (by decide +kernel)).mpr ?_
  intro c i m here
  match c, i with
  | 0, 0 | 0, 1 | 1, 0 | 1, 1 =>
      obtain rfl := Option.some.inj here
      decide +kernel
  | 0, i + 2 | 1, i + 2 => cases here
  | c + 2, i => cases here

/-- The loudest sample there is comes back a unit short from silent stems. -/
theorem full_scale_comes_back_short :
    ¬ ∀ (filters : Filters ℚ) (samples : List (List (BitVec 16))) (harmonics vocals : List (List ℚ))
        (output : Output) (rate : UInt32), rate = UInt32.ofNat output.rate.hz →
        output.derived = true → FullScale ⟨harmonics, rate⟩ → FullScale ⟨vocals, rate⟩ →
        FullScale ((shippedStems harmonics vocals rate).derivedPart (decodedMix samples rate)) →
          ∃ files, publishedParts filters (decodedMix samples rate)
              (shippedStems harmonics vocals rate) output = .ok files ∧ AddBack samples files := by
  intro claim
  have silent : FullScale ⟨[[0]], 44100⟩ := by decide
  have derivedScale : FullScale
      ((shippedStems [[0]] [[0]] 44100).derivedPart (decodedMix [[32767]] 44100)) := by
    decide +kernel
  obtain ⟨files, done, back⟩ := claim noFilters [[32767]] [[0]] [[0]]
    ⟨.flac, .hz44100, true, .general⟩ 44100 rfl rfl silent silent derivedScale
  have published := publishedParts_native silent silent derivedScale noFilters
    (show (Output.mk .flac .hz44100 true .general).derived = true from rfl) rfl
  obtain rfl := Except.ok.inj (published.symm.trans done)
  have short := back 0 0 32767 rfl
  revert short
  decide +kernel

end Stemd.Server
