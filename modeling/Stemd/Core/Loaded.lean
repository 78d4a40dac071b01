import Stemd.Core.Whole
import Stemd.Mlx.Artefact
import Stemd.Mlx.Chunks

/-! The two arrangements, loaded from the artefacts of a directory.

Which checkpoint a half is loaded from is also which of its outputs is kept. What a refusal says
names the artefact it is about, and is so of it. -/

set_option autoImplicit false

namespace Stemd.Core

open Stemd.Semantics Stemd.Mlx
open Stemd.Mlx.HtDemucs (Settings Demucs SegmentError)
open Stemd.Mlx.Roformer (Architecture BsRoformer ForwardError)

inductive ModelError where
  | demucs (error : SegmentError)
  | roformer (error : ForwardError)
  deriving DecidableEq, Repr

structure Machine (K : Type) where
  root : K → K
  cosine : Nat → Nat → K
  demucs : HtDemucs.Runtime K
  roformer : Roformer.Runtime K

abbrev Artefacts (K : Type) := String → Option (Artefact K)

inductive Wanted where
  | single
  /-- `loading {vocals} as a BS-RoFormer` -/
  | roformer
  /-- `loading {drums}'s drums specialist` -/
  | drums
  /-- `loading {artefact}'s vocals specialist` -/
  | vocals
  deriving DecidableEq, Repr

inductive OpenError where
  /-- `reading {path}: {e}` -/
  | reading (artefact : String)
  /-- `{path} holds no model_N tensors; it is not a converted demucs artefact` -/
  | noModels (artefact : String)
  /-- `{path} holds {n} fine-tuned models; loading it as a single model would take every source
  from one of them. It needs a preset that says which model each source comes from.` -/
  | fineTuned (artefact : String) (count : Nat)
  | tensor (artefact : String) (wanted : Wanted) (cause : LoadError)
  deriving DecidableEq, Repr

def openArtefact {K : Type} (dir : Artefacts K) (name : String) : Except OpenError (Artefact K) :=
  parsed (dir name) (.reading name)

/-- Indices of sources in demucs's order. -/
def drumsSource : Nat := 0

def vocalsSource : Nat := 3

/-- `format!("model_{index}")` -/
def modelName (index : Nat) : String := "model_" ++ toString index

section

variable {K : Type} [Field K] [LinearOrder K]

def audioChannels : Nat := (Settings.default : Settings ℚ).audioChannels

def audioRate : UInt32 := UInt32.ofNat (Settings.default : Settings ℚ).sampleRate

def Half.demucs (machine : Machine K) (w : Artefact K) (index : Nat) :
    Except LoadError (Half K (AnyError ModelError) audioChannels) := do
  let demucs ← Demucs.load Settings.default machine.cosine w (modelName index)
  return ⟨chunkedDemucs audioChannels (fun e => .failure (.demucs e)) machine.demucs demucs.1,
    index, true⟩

/-- Which variant is the artefact's business. -/
def Half.roformer (machine : Machine K) (w : Artefact K) :
    Except LoadError (Half K (AnyError ModelError) audioChannels) := do
  let model ← BsRoformer.load machine.cosine w.toWeights (Architecture.of w.toWeights)
  return ⟨chunkedRoformer audioChannels (fun e => .failure (.roformer e)) machine.roformer model,
    0, false⟩

def HybridSeparator.assemble (overlap : K) (cascade : Bool)
    (vocals drums : Half K (AnyError ModelError) audioChannels) :
    HybridSeparator K (AnyError ModelError) :=
  ⟨audioChannels, audioRate, vocals, drums, overlap, cascade⟩

/-- BS-RoFormer for the vocals, a demucs bag's drums specialist for the rest. -/
def HybridSeparator.roformerAndDemucs (machine : Machine K) (dir : Artefacts K)
    (vocals drums : String) (overlap : K) (cascade : Bool) :
    Except OpenError (HybridSeparator K (AnyError ModelError)) := do
  let v ← openArtefact dir vocals
  let sung ← (Half.roformer machine v).mapError (.tensor vocals .roformer)
  let d ← openArtefact dir drums
  let played ← (Half.demucs machine d drumsSource).mapError (.tensor drums .drums)
  return .assemble overlap cascade sung played

/-- Both halves from one demucs bag. -/
def HybridSeparator.demucsSpecialists (machine : Machine K) (dir : Artefacts K)
    (artefact : String) (overlap : K) (cascade : Bool) :
    Except OpenError (HybridSeparator K (AnyError ModelError)) := do
  let weights ← openArtefact dir artefact
  let sung ← (Half.demucs machine weights vocalsSource).mapError (.tensor artefact .vocals)
  let played ← (Half.demucs machine weights drumsSource).mapError (.tensor artefact .drums)
  return .assemble overlap cascade sung played

def singleModel (machine : Machine K) (name : String) (w : Artefact K) : Except OpenError
    { demucs : Demucs (Settings.default : Settings K) // demucs.model.freqEmb.bins = 512 } :=
  match w.toWeights.models with
  | 0 => .error (.noModels name)
  | 1 => (Demucs.load Settings.default machine.cosine w (modelName 0)).mapError
      (.tensor name .single)
  | n => .error (.fineTuned name n)

def MlxSeparator.load (machine : Machine K) (dir : Artefacts K) (name : String) (overlap : K) :
    Except OpenError (MlxSeparator K (AnyError ModelError)) := do
  let weights ← openArtefact dir name
  let demucs ← singleModel machine name weights
  return ⟨audioChannels, audioRate,
    chunkedDemucs audioChannels (fun e => .failure (.demucs e)) machine.demucs demucs.1,
    fourStemSources, overlap⟩

end

def OpenError.Holds {K : Type} (dir : Artefacts K) : OpenError → Prop
  | .reading name => dir name = none
  | .noModels name => ∃ w, dir name = some w ∧ w.toWeights.holdsModel 0 = false
  | .fineTuned name count => ∃ w, dir name = some w ∧ 1 < count ∧
      (∀ n < count, w.toWeights.holdsModel n = true) ∧ w.toWeights.holdsModel count = false
  | .tensor name _ cause => ∃ w, dir name = some w ∧ cause.Holds w.toWeights

def Has {K : Type} (dir : Artefacts K) (name : String) (stored : Artefact K → Prop) : Prop :=
  ∃ w, dir name = some w ∧ stored w

/-- What a load gives where the directory has what it wants, and only there. -/
def Opens {K α : Type} (dir : Artefacts K) (stored : Prop) (sound : α → Prop)
    (opened : Except OpenError α) : Prop :=
  Settles (fun value => stored ∧ sound value) (fun e => ¬ stored ∧ e.Holds dir) opened

section

variable {K α β : Type} {dir : Artefacts K}

theorem has_and {name : String} {stored : Artefact K → Prop} {rest : Prop} :
    Has dir name (fun w => stored w ∧ rest) ↔ Has dir name stored ∧ rest := by
  constructor
  · rintro ⟨w, found, holds, also⟩
    exact ⟨⟨w, found, holds⟩, also⟩
  · rintro ⟨⟨w, found, holds⟩, also⟩
    exact ⟨w, found, holds, also⟩

theorem Opens.bind {stored rest : Prop} {middle : α → Prop} {sound : β → Prop}
    {first : Except OpenError α} {next : α → Except OpenError β}
    (here : Opens dir stored middle first)
    (later : stored → ∀ value, middle value → Opens dir rest sound (next value)) :
    Opens dir (stored ∧ rest) sound (first >>= next) := by
  cases first with
  | error e => exact ⟨fun both => here.1 both.1, here.2⟩
  | ok value =>
      have go := later here.1 value here.2
      change Opens dir _ _ (next value)
      cases ended : next value with
      | ok result =>
          rw [ended] at go
          exact ⟨⟨here.1, go.1⟩, go.2⟩
      | error e =>
          rw [ended] at go
          exact ⟨fun both => go.1 both.2, go.2⟩

theorem Opens.done {stored : Prop} {sound : β → Prop} {first : Except OpenError α}
    {middle : α → Prop} (here : Opens dir stored middle first) (f : α → β)
    (keeps : ∀ value, middle value → sound (f value)) :
    Opens dir stored sound (first >>= fun value => .ok (f value)) := by
  cases first with
  | error e => exact here
  | ok value => exact ⟨here.1, keeps value here.2⟩

theorem Opens.opened {name : String} {stored : Artefact K → Prop} {sound : α → Prop}
    {next : Artefact K → Except OpenError α}
    (later : ∀ w, dir name = some w → Opens dir (stored w) sound (next w)) :
    Opens dir (Has dir name stored) sound (openArtefact dir name >>= next) := by
  unfold openArtefact
  cases found : dir name with
  | none =>
      refine ⟨?_, found⟩
      rintro ⟨w, is, -⟩
      rw [found] at is
      cases is
  | some w =>
      have same : Has dir name stored ↔ stored w := by
        constructor
        · rintro ⟨w', is, holds⟩
          rw [found] at is
          cases is
          exact holds
        · exact fun holds => ⟨w, found, holds⟩
      rw [same]
      exact later w found

theorem Opens.loads {name : String} {w : Artefact K} (found : dir name = some w) {stored : Prop}
    {sound : α → Prop} {loaded : Except LoadError α} (wanted : Wanted)
    (loads : Loads w.toWeights stored loaded) (good : ∀ value, loaded = .ok value → sound value) :
    Opens dir stored sound (loaded.mapError (.tensor name wanted)) := by
  cases loaded with
  | error e => exact ⟨loads.1, w, found, loads.2⟩
  | ok value => exact ⟨loads, good value rfl⟩

end

section

variable {K : Type} [Field K] [LinearOrder K] [IsStrictOrderedRing K] [FloorRing K]

theorem strideOf_mono {overlap : K} {short long : Int} (shorter : short ≤ long) (some : 0 ≤ short)
    (strides : 1 ≤ strideOf overlap short) : 1 ≤ strideOf overlap long := by
  have positive : 1 ≤ (1 - overlap) * short := by
    unfold strideOf at strides
    dsimp only at strides
    split at strides
    · exact_mod_cast Int.le_floor.mp strides
    · next negative =>
        have below : ⌈(1 - overlap) * (short : K)⌉ ≤ 0 :=
          Int.ceil_le.mpr (by push_cast; exact (not_le.mp negative).le)
        omega
  have whole : (0 : K) ≤ short := by exact_mod_cast some
  have left : 0 ≤ 1 - overlap := by
    by_contra negative
    have none := mul_nonpos_of_nonpos_of_nonneg (not_le.mp negative).le whole
    linarith
  have more : (1 - overlap) * short ≤ (1 - overlap) * long :=
    mul_le_mul_of_nonneg_left (by exact_mod_cast shorter) left
  have here : 1 ≤ (1 - overlap) * long := positive.trans more
  unfold strideOf
  dsimp only
  rw [if_pos (zero_le_one.trans here)]
  exact Int.le_floor.mpr (by exact_mod_cast here)

def shortestChunk : Int := 343980

omit [LinearOrder K] [IsStrictOrderedRing K] [FloorRing K] in
theorem trainingLength_default : (Settings.default : Settings K).trainingLength = 343980 := by
  norm_num [Settings.trainingLength, Settings.default]

omit [IsStrictOrderedRing K] in
theorem Half.demucs_opens (machine : Machine K) {dir : Artefacts K} {name : String}
    {w : Artefact K} (found : dir name = some w) (wanted : Wanted) {index : Nat}
    (source : index < 4) :
    Opens dir (Demucs.Stored (Settings.default : Settings K) w.toWeights (modelName index))
      (fun half => ∀ overlap : K, 1 ≤ strideOf overlap shortestChunk → half.Sound overlap)
      ((Half.demucs machine w index).mapError (.tensor name wanted)) := by
  refine Opens.loads found wanted ((Demucs.load_loads Settings.default machine.cosine w
    (modelName index)).done _) fun half loaded overlap strides => ?_
  obtain ⟨demucs, -, made⟩ := bind_ok loaded
  cases made
  refine ⟨chunkedDemucs_takes rfl _ machine.demucs demucs.1 ?_, source, ?_⟩
  · rw [demucs.2]
    exact Settings.default_trained
  · change 1 ≤ strideOf overlap ((Settings.default : Settings K).trainingLength : Int)
    rw [trainingLength_default]
    exact strides

theorem Half.roformer_opens (machine : Machine K) {dir : Artefacts K} {name : String}
    {w : Artefact K} (found : dir name = some w) (wanted : Wanted) :
    Opens dir (BsRoformer.Stored w.toWeights (Architecture.of w.toWeights))
      (fun half => ∀ overlap : K, 1 ≤ strideOf overlap shortestChunk → half.Sound overlap)
      ((Half.roformer machine w).mapError (.tensor name wanted)) := by
  refine Opens.loads found wanted ((BsRoformer.load_loads machine.cosine w.toWeights
    (Architecture.of w.toWeights)).done _) fun half loaded overlap strides => ?_
  obtain ⟨model, -, made⟩ := bind_ok loaded
  cases made
  have variants : Architecture.of w.toWeights = .polarformer ∨
      Architecture.of w.toWeights = .default := by
    unfold Architecture.of
    split
    · exact .inl rfl
    · exact .inr rfl
  have sizes : (Architecture.of w.toWeights).audioChannels = audioChannels ∧
      (Architecture.of w.toWeights).nFft / 2 < (Architecture.of w.toWeights).chunk ∧
      shortestChunk ≤ (Architecture.of w.toWeights).chunk := by
    rcases variants with is | is <;> rw [is] <;> decide
  exact ⟨chunkedRoformer_takes sizes.1 _ machine.roformer model sizes.2.1, Nat.one_pos,
    strideOf_mono sizes.2.2 (by decide) strides⟩

def Whole (w : Artefact K) : Prop :=
  w.toWeights.models = 1 ∧ Demucs.Stored (Settings.default : Settings K) w.toWeights (modelName 0)

omit [LinearOrder K] [IsStrictOrderedRing K] [FloorRing K] in
theorem singleModel_opens (machine : Machine K) {dir : Artefacts K} {name : String}
    {w : Artefact K} (found : dir name = some w) :
    Opens dir (Whole w) (fun _ => True) (singleModel machine name w) := by
  have stops := w.toWeights.models_stops
  have holds := w.toWeights.models_holds
  have loads : Opens dir (Demucs.Stored (Settings.default : Settings K) w.toWeights (modelName 0))
      (fun _ => True) ((Demucs.load Settings.default machine.cosine w (modelName 0)).mapError
        (.tensor name .single)) :=
    Opens.loads found .single (Demucs.load_loads Settings.default machine.cosine w (modelName 0))
      fun _ _ => trivial
  unfold singleModel Whole
  split
  · next none =>
      rw [none] at stops
      exact ⟨fun both => absurd (none.symm.trans both.1) Nat.zero_ne_one, w, found, stops⟩
  · next one =>
      rw [one]
      simpa using loads
  · next none one =>
      exact ⟨fun both => one both.1, w, found,
        Nat.lt_of_le_of_ne (Nat.pos_of_ne_zero none) (Ne.symm one), holds, stops⟩

omit [IsStrictOrderedRing K] in
theorem MlxSeparator.load_opens (machine : Machine K) (dir : Artefacts K) (name : String)
    {overlap : K} (shared : 0 ≤ overlap) (strides : 1 ≤ strideOf overlap shortestChunk) :
    Opens dir (Has dir name Whole)
      (fun separator => separator.Sound ∧ separator.channels = audioChannels ∧
        separator.sampleRate = audioRate) (MlxSeparator.load machine dir name overlap) := by
  refine Opens.opened fun w found => (singleModel_opens machine found).done _ fun demucs _ => ?_
  refine ⟨⟨chunkedDemucs_takes rfl _ machine.demucs demucs.1 ?_, rfl, le_rfl, shared, ?_⟩, rfl, rfl⟩
  · rw [demucs.2]
    exact Settings.default_trained
  · change 1 ≤ strideOf overlap ((Settings.default : Settings K).trainingLength : Int)
    rw [trainingLength_default]
    exact strides

structure HybridSeparator.Sound (separator : HybridSeparator K (AnyError ModelError)) : Prop where
  vocals : separator.vocals.Sound separator.overlap
  drums : separator.drums.Sound separator.overlap
  shared : 0 ≤ separator.overlap
  channels : separator.channels = audioChannels
  rate : separator.sampleRate = audioRate

theorem HybridSeparator.roformerAndDemucs_opens (machine : Machine K) (dir : Artefacts K)
    (vocals drums : String) {overlap : K} (cascade : Bool) (shared : 0 ≤ overlap)
    (strides : 1 ≤ strideOf overlap shortestChunk) :
    Opens dir
      (Has dir vocals (fun w => BsRoformer.Stored w.toWeights (Architecture.of w.toWeights)) ∧
        Has dir drums (fun w => Demucs.Stored (Settings.default : Settings K) w.toWeights
          (modelName drumsSource)))
      HybridSeparator.Sound
      (HybridSeparator.roformerAndDemucs machine dir vocals drums overlap cascade) := by
  rw [← has_and]
  refine Opens.opened fun w found => (Half.roformer_opens machine found .roformer).bind
    fun _ sung sings => Opens.opened fun d found' =>
      (Half.demucs_opens machine found' .drums (show 0 < 4 by decide)).done
        (HybridSeparator.assemble overlap cascade sung) fun played plays => ?_
  exact ⟨sings overlap strides, plays overlap strides, shared, rfl, rfl⟩

omit [IsStrictOrderedRing K] in
theorem HybridSeparator.demucsSpecialists_opens (machine : Machine K) (dir : Artefacts K)
    (artefact : String) {overlap : K} (cascade : Bool) (shared : 0 ≤ overlap)
    (strides : 1 ≤ strideOf overlap shortestChunk) :
    Opens dir
      (Has dir artefact fun w =>
        Demucs.Stored (Settings.default : Settings K) w.toWeights (modelName vocalsSource) ∧
          Demucs.Stored (Settings.default : Settings K) w.toWeights (modelName drumsSource))
      HybridSeparator.Sound
      (HybridSeparator.demucsSpecialists machine dir artefact overlap cascade) := by
  refine Opens.opened fun w found => (Half.demucs_opens machine found .vocals
    (show 3 < 4 by decide)).bind fun _ sung sings =>
      (Half.demucs_opens machine found .drums (show 0 < 4 by decide)).done
        (HybridSeparator.assemble overlap cascade sung) fun played plays => ?_
  exact ⟨sings overlap strides, plays overlap strides, shared, rfl, rfl⟩

end

end Stemd.Core
