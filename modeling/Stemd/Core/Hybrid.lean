import Mathlib.Data.Rat.Cast.OfScientific
import Stemd.Core.Faders
import Stemd.Mlx.OverTrack
import Stemd.Semantics.Fallible

/-! Two models, one stem each, and the third derived.

The vocals come from one model and the drums from another, which is handed either the track
or what the first left behind. What ships as harmonics is the remainder, so that the player's
subtraction returns the drums estimate untouched. What a model computes is its own business;
sample arithmetic is exact, and so is the root that a deviation takes. -/

set_option autoImplicit false

namespace Stemd.Core

open Stemd.Semantics Stemd.Mlx

/-- The loudness normalisation, applied to a whole track and undone at the end. -/
structure Normalisation (K : Type) where
  mean : K
  std : K
  invStd : K

structure Half (K E : Type) (channels : Nat) where
  model : Chunked Unit (Fin channels) K E
  source : Nat
  /-- Whether the model expects the track-level normalisation. -/
  normalised : Bool

structure HybridSeparator (K E : Type) where
  channels : Nat
  sampleRate : UInt32
  vocals : Half K E channels
  drums : Half K E channels
  overlap : K
  /-- Hand the drums half the instrumental rather than the mixture. -/
  cascade : Bool

inductive HybridError (K E : Type) where
  /-- `these models expect {expected} channels, got {got}` -/
  | channels (expected got : Nat)
  /-- `these models expect {expected} Hz, got {got} Hz` -/
  | rate (expected got : UInt32)
  /-- `nothing to separate: the mix has no frames` -/
  | noFrames
  | track (error : OverTrackError K E)
  /-- A length that does not fit 32 bits, which is refused, or an index, a slice or an array's
  size out of range, which panics. -/
  | misfit
  deriving DecidableEq, Repr

variable {K E : Type}

def fitted {α : Type} : Option α → Except (HybridError K E) α
  | some value => .ok value
  | none => .error .misfit

section

variable [Field K] [LinearOrder K]

def stdFloor : K := 1e-8

def monoAt (mix : Audio K) (i : Nat) : K :=
  (mix.data.map fun ch => ch.getD i 0).sum / (max mix.channels 1 : Nat)

/-- Mean and standard deviation of the mono mixdown, given the root. A channel that ends before
the first is read past its end. -/
def monoMeanStd (root : K → K) (mix : Audio K) : Option (K × K) :=
  let frames := mix.frames
  if frames = 0 then some (0, 1)
  else if ∀ ch ∈ mix.data, frames ≤ ch.length then
    let mean := ((List.range frames).map (monoAt mix)).sum / frames
    let var := ((List.range frames).map fun i => (monoAt mix i - mean) ^ 2).sum / frames
    some (mean, max (root var) stdFloor)
  else none

def Normalisation.of (root : K → K) (mix : Audio K) : Option (Normalisation K) :=
  (monoMeanStd root mix).map fun stats => ⟨stats.1, stats.2, 1 / (stats.2 + stdFloor)⟩

def Normalisation.apply (norm : Normalisation K) (v : K) : K := (v - norm.mean) * norm.invStd

def Normalisation.restore (norm : Normalisation K) (v : K) : K := v * norm.std + norm.mean

/-- `[C, T]` planes as one `[1, C, T]` array, optionally normalised. -/
def toArray (channels : Nat) (mix : Audio K) (norm : Option (Normalisation K)) :
    Option (Rows (Unit × Fin channels) K) :=
  let frames := mix.frames
  let flat := mix.data.flatMap fun channel =>
    match norm with
    | some n => channel.map n.apply
    | none => channel
  if size : flat.length = channels * frames ∧ channels < 2 ^ 31 ∧ frames < 2 ^ 31 then
    some {
      width := frames
      row := fun name => (flat.drop (name.2 * frames)).take frames
      shape := fun name => by
        have below : (name.2 + 1) * frames ≤ channels * frames :=
          Nat.mul_le_mul_right _ name.2.isLt
        rw [Nat.succ_mul] at below
        rw [List.length_take, List.length_drop, size.1]
        omega }
  else none

/-- One source of a separated track back to planes, optionally denormalised. -/
def toPlanes {channels sources : Nat} (out : Rows (Unit × Fin sources × Fin channels) K)
    (source : Nat) (norm : Option (Normalisation K)) (frames : Nat) : Option (List (List K)) :=
  if present : source < sources then
    let flat := (List.finRange channels).flatMap fun c => out.row ((), ⟨source, present⟩, c)
    if channels * frames ≤ flat.length then
      some ((List.range channels).map fun c =>
        let plane := (flat.drop (c * frames)).take frames
        match norm with
        | some n => plane.map n.restore
        | none => plane)
    else none
  else none

def planeAt (planes : List (List K)) (c i : Nat) : K := (planes.getD c []).getD i 0

def planes (channels frames : Nat) (sample : Nat → Nat → K) : List (List K) :=
  (List.range channels).map fun c => (List.range frames).map (sample c)

def remainder (channels : Nat) (mix : Audio K) (vocals drums : List (List K)) : List (List K) :=
  planes channels mix.frames fun c i =>
    planeAt mix.data c i - planeAt vocals c i - planeAt drums c i

variable [FloorRing K]

/-- One half over one source. The normalisation belongs to the audio it is given. -/
def Half.run (root : K → K) {channels : Nat} (overlap : K) (half : Half K E channels)
    (source : Audio K) (progress : Nat → Nat → Except E Unit) (frames : Nat) :
    Except (HybridError K E) (List (List K)) := do
  let norm ← fitted (Normalisation.of root source)
  let norm := if half.normalised then some norm else none
  let input ← fitted (toArray channels source norm)
  let out ← (overTrack half.model input overlap progress).mapError .track
  fitted (toPlanes out half.source norm frames)

namespace HybridSeparator

def checkGeometry (separator : HybridSeparator K E) (mix : Audio K) :
    Except (HybridError K E) Unit := do
  if mix.channels ≠ separator.channels then throw (.channels separator.channels mix.channels)
  if mix.sampleRate ≠ separator.sampleRate then throw (.rate separator.sampleRate mix.sampleRate)

def forDrums (separator : HybridSeparator K E) (mix : Audio K) (vocals : List (List K)) :
    Audio K :=
  if separator.cascade then
    ⟨planes separator.channels mix.frames fun c i => planeAt mix.data c i - planeAt vocals c i,
      separator.sampleRate⟩
  else mix

def estimates (root : K → K) (separator : HybridSeparator K E)
    (first second : Nat → Nat → Except E Unit) (mix : Audio K) :
    Except (HybridError K E) (List (List K) × List (List K)) := do
  let vocals ← separator.vocals.run root separator.overlap mix first mix.frames
  let drums ← separator.drums.run root separator.overlap (separator.forDrums mix vocals) second
    mix.frames
  return (vocals, drums)

/-- The stems, from the parts: the remainder ships and the drums do not. -/
def assembled (separator : HybridSeparator K E) (mix : Audio K) (vocals drums : List (List K)) :
    Option (Stems K) :=
  let harmonics := remainder separator.channels mix vocals drums
  let parts := [("drums", drums), ("harmonics", harmonics), ("vocals", vocals)]
  let audio (name : String) : Option (Audio K) :=
    (parts.find? fun part => part.1 = name).map fun part => ⟨part.2, separator.sampleRate⟩
  (shippedNames.mapM fun name => (audio name).map fun held => (name, held)).map Stems.mk

def separate (root : K → K) (separator : HybridSeparator K E)
    (first second : Nat → Nat → Except E Unit) (mix : Audio K) :
    Except (HybridError K E) (Stems K) := do
  separator.checkGeometry mix
  if mix.frames = 0 then throw .noFrames
  let (vocals, drums) ← separator.estimates root first second mix
  fitted (separator.assembled mix vocals drums)

end HybridSeparator

end

def Shaped (planes : List (List K)) (channels frames : Nat) : Prop :=
  planes.length = channels ∧ ∀ plane ∈ planes, plane.length = frames

section

variable [Field K]

theorem Shaped.sample? {data : List (List K)} {channels frames : Nat}
    (shaped : Shaped data channels frames) (c i : Nat) :
    data[c]?.bind (·[i]?) =
      if c < channels ∧ i < frames then some (planeAt data c i) else none := by
  by_cases channel : c < channels
  · have inside : c < data.length := shaped.1 ▸ channel
    have length : data[c].length = frames := shaped.2 _ (List.getElem_mem inside)
    rw [List.getElem?_eq_getElem inside, Option.bind_some]
    by_cases frame : i < frames
    · have within : i < data[c].length := length ▸ frame
      rw [if_pos ⟨channel, frame⟩, List.getElem?_eq_getElem within, planeAt,
        List.getD_eq_getElem _ _ inside, List.getD_eq_getElem _ _ within]
    · rw [if_neg fun both => frame both.2, List.getElem?_eq_none (by omega)]
  · rw [if_neg fun both => channel both.1, List.getElem?_eq_none (by rw [shaped.1]; omega)]
    rfl

theorem Shaped.at {audio : Audio K} {channels frames : Nat}
    (shaped : Shaped audio.data channels frames) {c i : Nat} (channel : c < channels)
    (frame : i < frames) : audio.at c i = planeAt audio.data c i := by
  rw [Audio.at, Audio.sample?, shaped.sample?, if_pos ⟨channel, frame⟩, Option.getD_some]

omit [Field K] in
theorem planes_shaped (channels frames : Nat) (sample : Nat → Nat → K) :
    Shaped (planes channels frames sample) channels frames := by
  refine ⟨by simp [planes], fun plane member => ?_⟩
  obtain ⟨c, -, rfl⟩ := List.mem_map.mp member
  simp

theorem planeAt_planes {channels frames c i : Nat} (sample : Nat → Nat → K)
    (channel : c < channels) (frame : i < frames) :
    planeAt (planes channels frames sample) c i = sample c i := by
  simp [planeAt, planes, channel, frame]

omit [Field K] in
theorem data_ext {left right : List (List K)} (length : left.length = right.length)
    (same : ∀ c i : Nat, left[c]?.bind (·[i]?) = right[c]?.bind (·[i]?)) : left = right := by
  apply List.ext_getElem length
  intro c inside inside'
  apply List.ext_getElem?
  intro i
  have here := same c i
  rwa [List.getElem?_eq_getElem inside, List.getElem?_eq_getElem inside', Option.bind_some,
    Option.bind_some] at here

theorem derivedPart_channels (stems : Stems K) (mix : Audio K) :
    (stems.derivedPart mix).data.length = mix.data.length := by
  obtain ⟨shipped⟩ := stems
  simp only [Stems.derivedPart]
  induction shipped generalizing mix with
  | nil => rfl
  | cons stem rest ih =>
      rw [List.foldl_cons, ih]
      simp [Audio.subtract]

/-- The subtraction on the player's side undoes the one on the server's. -/
theorem derivedPart_remainder {mix : Audio K} {channels : Nat} {vocals drums : List (List K)}
    (track : Shaped mix.data channels mix.frames) (first : Shaped vocals channels mix.frames)
    (second : Shaped drums channels mix.frames) {stems : Stems K} {rate : UInt32}
    (held : stems.shipped = [("harmonics", ⟨remainder channels mix vocals drums, rate⟩),
      ("vocals", ⟨vocals, rate⟩)]) :
    stems.derivedPart mix = ⟨drums, mix.sampleRate⟩ := by
  have data : (stems.derivedPart mix).data = drums := by
    apply data_ext (by rw [derivedPart_channels, track.1, second.1])
    intro c i
    refine (Stems.derivedPart_sample? stems mix c i).trans ?_
    rw [held, Audio.sample?, track.sample?, second.sample?]
    by_cases inside : c < channels ∧ i < mix.frames
    · have left : (⟨remainder channels mix vocals drums, rate⟩ : Audio K).at c i =
          planeAt mix.data c i - planeAt vocals c i - planeAt drums c i := by
        rw [Shaped.at (planes_shaped _ _ _) inside.1 inside.2]
        exact planeAt_planes _ inside.1 inside.2
      have sung : (⟨vocals, rate⟩ : Audio K).at c i = planeAt vocals c i :=
        Shaped.at first inside.1 inside.2
      rw [if_pos inside, if_pos inside, Option.map_some]
      simp only [List.map_cons, List.map_nil, List.sum_cons, List.sum_nil, left, sung]
      congr 1
      ring
    · rw [if_neg inside, if_neg inside, Option.map_none]
  have rated := stems.derivedPart_sampleRate mix
  cases derived : stems.derivedPart mix with
  | mk samples found =>
      rw [derived] at data rated
      cases data
      cases rated
      rfl

omit [Field K] in
theorem fitted_ok {α : Type} {o : Option α} {value : α}
    (ended : (fitted o : Except (HybridError K E) α) = .ok value) : o = some value := by
  cases o with
  | none => cases ended
  | some found =>
      cases ended
      rfl

theorem toPlanes_shaped {channels sources : Nat}
    {out : Rows (Unit × Fin sources × Fin channels) K} {source frames : Nat}
    {norm : Option (Normalisation K)} {result : List (List K)}
    (ended : toPlanes out source norm frames = some result) : Shaped result channels frames := by
  unfold toPlanes at ended
  split at ended
  · next present =>
      dsimp only at ended
      split at ended
      · next enough =>
          cases ended
          refine ⟨by simp, fun plane member => ?_⟩
          obtain ⟨c, channel, rfl⟩ := List.mem_map.mp member
          have below : (c + 1) * frames ≤ channels * frames :=
            Nat.mul_le_mul_right _ (List.mem_range.mp channel)
          rw [Nat.succ_mul] at below
          cases norm with
          | none =>
              rw [List.length_take, List.length_drop]
              omega
          | some n =>
              rw [List.length_map, List.length_take, List.length_drop]
              omega
      · cases ended
  · cases ended

omit [Field K] in
theorem lengths_le {data : List (List K)} {frames : Nat}
    (reach : ∀ ch ∈ data, frames ≤ ch.length) :
    data.length * frames ≤ (data.map List.length).sum := by
  induction data with
  | nil => simp
  | cons first rest ih =>
      have here := reach first List.mem_cons_self
      have others := ih fun ch later => reach ch (List.mem_cons_of_mem _ later)
      rw [List.map_cons, List.sum_cons, List.length_cons, Nat.succ_mul]
      omega

omit [Field K] in
theorem lengths_eq {data : List (List K)} {frames : Nat}
    (reach : ∀ ch ∈ data, frames ≤ ch.length)
    (total : (data.map List.length).sum = data.length * frames) :
    ∀ ch ∈ data, ch.length = frames := by
  induction data with
  | nil => simp
  | cons first rest ih =>
      have here := reach first List.mem_cons_self
      have others := lengths_le fun ch later => reach ch (List.mem_cons_of_mem _ later)
      rw [List.map_cons, List.sum_cons, List.length_cons, Nat.succ_mul] at total
      intro ch member
      rcases List.mem_cons.mp member with rfl | later
      · omega
      · exact ih (fun ch later => reach ch (List.mem_cons_of_mem _ later)) (by omega) ch later

theorem toArray_size {channels : Nat} {mix : Audio K} {norm : Option (Normalisation K)}
    {array : Rows (Unit × Fin channels) K} (ended : toArray channels mix norm = some array) :
    (mix.data.map List.length).sum = channels * mix.frames := by
  unfold toArray at ended
  dsimp only at ended
  split at ended
  · next size =>
      rw [← size.1, List.length_flatMap]
      congr 1
      apply List.map_congr_left
      intro ch _
      cases norm with
      | none => rfl
      | some n => rw [List.length_map]
  · cases ended

variable [LinearOrder K]

theorem monoMeanStd_reach {root : K → K} {mix : Audio K} {stats : K × K}
    (ended : monoMeanStd root mix = some stats) : ∀ ch ∈ mix.data, mix.frames ≤ ch.length := by
  unfold monoMeanStd at ended
  dsimp only at ended
  split at ended
  · next silent =>
      intro ch _
      omega
  · split at ended
    · next reach => exact reach
    · cases ended

omit [LinearOrder K] in
theorem HybridSeparator.assembled_shipped {separator : HybridSeparator K E} {mix : Audio K}
    {vocals drums : List (List K)} {stems : Stems K}
    (ended : separator.assembled mix vocals drums = some stems) :
    stems.shipped = [("harmonics", ⟨remainder separator.channels mix vocals drums,
      separator.sampleRate⟩), ("vocals", ⟨vocals, separator.sampleRate⟩)] := by
  have built : separator.assembled mix vocals drums = some ⟨[("harmonics",
      ⟨remainder separator.channels mix vocals drums, separator.sampleRate⟩),
      ("vocals", ⟨vocals, separator.sampleRate⟩)]⟩ := rfl
  rw [built] at ended
  cases ended
  rfl

omit [Field K] [LinearOrder K] in
theorem HybridSeparator.checkGeometry_ok {separator : HybridSeparator K E} {mix : Audio K}
    {ended : Unit} (checked : separator.checkGeometry mix = .ok ended) :
    mix.channels = separator.channels ∧ mix.sampleRate = separator.sampleRate := by
  unfold HybridSeparator.checkGeometry at checked
  by_cases channels : mix.channels = separator.channels
  · by_cases rate : mix.sampleRate = separator.sampleRate
    · exact ⟨channels, rate⟩
    · rw [if_neg (not_not.mpr channels), if_pos rate] at checked
      cases checked
  · rw [if_pos channels] at checked
    cases checked

variable [FloorRing K]

theorem Half.run_shaped {root : K → K} {channels : Nat} {overlap : K} {half : Half K E channels}
    {source : Audio K} {progress : Nat → Nat → Except E Unit} {frames : Nat}
    {result : List (List K)}
    (ended : half.run root overlap source progress frames = .ok result)
    (count : source.data.length = channels) :
    Shaped source.data channels source.frames ∧ Shaped result channels frames := by
  obtain ⟨norm, normed, ended⟩ := bind_ok ended
  obtain ⟨input, given, ended⟩ := bind_ok ended
  obtain ⟨out, -, ended⟩ := bind_ok ended
  -- The statistics need every channel to reach as far as the first, and the array that they do
  -- not reach further together.
  have reach : ∀ ch ∈ source.data, source.frames ≤ ch.length := by
    have stats := fitted_ok normed
    obtain ⟨pair, found, -⟩ := Option.map_eq_some_iff.mp stats
    exact monoMeanStd_reach found
  have total := toArray_size (fitted_ok given)
  refine ⟨⟨count, lengths_eq reach (count ▸ total)⟩, toPlanes_shaped (fitted_ok ended)⟩

theorem HybridSeparator.separate_spec {root : K → K} {separator : HybridSeparator K E}
    {first second : Nat → Nat → Except E Unit} {mix : Audio K} {stems : Stems K}
    (ended : separator.separate root first second mix = .ok stems) :
    ∃ vocals drums,
      separator.vocals.run root separator.overlap mix first mix.frames = .ok vocals ∧
      separator.drums.run root separator.overlap (separator.forDrums mix vocals) second
        mix.frames = .ok drums ∧
      stems.derivedPart mix = ⟨drums, separator.sampleRate⟩ := by
  obtain ⟨_, checked, ended⟩ := bind_ok ended
  have heard : mix.frames ≠ 0 := by
    intro silent
    dsimp only at ended
    rw [if_pos silent] at ended
    cases ended
  dsimp only at ended
  rw [if_neg heard] at ended
  obtain ⟨⟨vocals, drums⟩, estimated, ended⟩ := bind_ok ended
  obtain ⟨vocals', sung, estimated⟩ := bind_ok estimated
  obtain ⟨drums', played, estimated⟩ := bind_ok estimated
  cases estimated
  have geometry := HybridSeparator.checkGeometry_ok checked
  obtain ⟨track, whole⟩ := Half.run_shaped sung geometry.1
  -- What the drums half is handed has all the channels, chained or not.
  have handed : (separator.forDrums mix vocals).data.length = separator.channels := by
    unfold HybridSeparator.forDrums
    split
    · exact (planes_shaped _ _ _).1
    · exact geometry.1
  have whole' := (Half.run_shaped played handed).2
  refine ⟨vocals, drums, sung, played, ?_⟩
  rw [derivedPart_remainder track whole whole'
    (HybridSeparator.assembled_shipped (fitted_ok ended)), geometry.2]

/-- The faders mix the parts, whether a part is held or derived; and what is derived from the
stems of the two halves is the drums half's own estimate. -/
theorem mix_eq_parts (root : K → K) :
    (∀ (mix harmonics vocals : Audio K) (gains : PartGains K),
      (∀ c i, ((Stems.mk [("harmonics", harmonics), ("vocals", vocals)]).mix mix gains).sample?
          c i = (((Stems.mk [("harmonics", harmonics), ("vocals", vocals)]).derivedPart
            mix).sample? c i).map fun drums => gains.drums * drums +
              gains.harmonics * harmonics.at c i + gains.vocals * vocals.at c i) ∧
      ((Stems.mk [("harmonics", harmonics), ("vocals", vocals)]).mix mix gains).sampleRate =
        mix.sampleRate ∧
      (Stems.mk [("harmonics", harmonics), ("vocals", vocals)]).mix mix .unity = mix) ∧
    ∀ (separator : HybridSeparator K E) (first second : Nat → Nat → Except E Unit)
      (mix : Audio K) (stems : Stems K), separator.separate root first second mix = .ok stems →
      ∃ vocals drums,
        separator.vocals.run root separator.overlap mix first mix.frames = .ok vocals ∧
        separator.drums.run root separator.overlap (separator.forDrums mix vocals) second
          mix.frames = .ok drums ∧
        stems.derivedPart mix = ⟨drums, separator.sampleRate⟩ := by
  refine ⟨fun mix harmonics vocals gains => ⟨fun c i => ?_, ?_, ?_⟩, ?_⟩
  · exact Stems.mix_sample? mix harmonics vocals gains c i
  · unfold Stems.mix
    split
    · rfl
    · rfl
  · exact if_pos (PartGains.isUnity_iff _ |>.mpr rfl)
  · intro separator first second mix stems ended
    exact HybridSeparator.separate_spec ended

end

def scaledModel (factor : ℚ) : Chunked Unit (Fin 1) ℚ Unit where
  chunk := 2
  sources := 1
  separateChunk chunk := .ok {
    width := chunk.width
    row := fun name => (chunk.row (name.1, name.2.2)).map (factor * ·)
    shape := fun _ => (List.length_map _).trans (chunk.shape _) }

def halfAndThird : HybridSeparator ℚ Unit :=
  ⟨1, 44100, ⟨scaledModel (1 / 2), 0, false⟩, ⟨scaledModel (1 / 3), 0, false⟩, 1 / 2, true⟩

/-- Under `cascade` what is derived is a third of the half that the first model leaves. -/
theorem chained_halves_make_parts :
    ∃ stems, halfAndThird.separate id (fun _ _ => .ok ()) (fun _ _ => .ok ())
        ⟨[[1, 2, 6]], 44100⟩ = .ok stems ∧
      (stems.derivedPart ⟨[[1, 2, 6]], 44100⟩).data = [[1 / 6, 1 / 3, 1]] := by
  have ended : halfAndThird.separate id (fun _ _ => .ok ()) (fun _ _ => .ok ())
      ⟨[[1, 2, 6]], 44100⟩ = .ok ⟨[("harmonics", ⟨[[1 / 3, 2 / 3, 2]], 44100⟩),
        ("vocals", ⟨[[1 / 2, 1, 3]], 44100⟩)]⟩ := by decide +kernel
  obtain ⟨vocals, drums, sung, played, derived⟩ :=
    (mix_eq_parts (E := Unit) id).2 halfAndThird _ _ _ _ ended
  refine ⟨_, ended, ?_⟩
  have sung' : halfAndThird.vocals.run id halfAndThird.overlap ⟨[[1, 2, 6]], 44100⟩
      (fun _ _ => .ok ()) 3 = .ok [[1 / 2, 1, 3]] := by decide +kernel
  obtain rfl := Except.ok.inj (sung'.symm.trans sung)
  have played' : halfAndThird.drums.run id halfAndThird.overlap
      (halfAndThird.forDrums ⟨[[1, 2, 6]], 44100⟩ [[1 / 2, 1, 3]]) (fun _ _ => .ok ()) 3 =
        .ok [[1 / 6, 1 / 3, 1]] := by decide +kernel
  obtain rfl := Except.ok.inj (played'.symm.trans played)
  rw [derived]

end Stemd.Core
