import Stemd.Core.Loaded
import Stemd.Models.Resolve

/-! The launch: from a directory of weights to a server that separates.

Which files are wanted, and in which arrangement, is decided by the preset. A saved preset that
will not load gives way to the default, but a model that was asked for by name does not. -/

set_option autoImplicit false

namespace Stemd.Server

open Stemd.Semantics Stemd.Mlx Stemd.Core Stemd.Models
open Stemd.Semantics.Framing (Bytes)
open Stemd.Mlx.HtDemucs (Settings)
open Stemd.Mlx.Roformer (Architecture)

/-- `Box<dyn Separate>` -/
inductive Separator (K : Type) where
  | hybrid (separator : HybridSeparator K (AnyError ModelError))
  | single (separator : MlxSeparator K (AnyError ModelError))

inductive SeparateError (K : Type) where
  | hybrid (error : HybridError K (AnyError ModelError))
  | single (error : MlxError K (AnyError ModelError))

inductive LaunchError where
  | resolve (error : ResolveError)
  /-- `loading {artefact} from {dir}` -/
  | loading (artefact : String) (cause : OpenError)

/-- What was loaded, which is not always what was asked for. -/
structure LoadedModel (K : Type) where
  preset : Option Preset
  artefact : String
  separator : Separator K

section

variable {K : Type} [Field K] [LinearOrder K]

def build (machine : Machine K) (dir : Artefacts K) (artefact : String) (preset : Option Preset)
    (overlap : K) : Except OpenError (Separator K) :=
  match preset with
  | some .quality => do
      let names := Preset.quality.artefacts
      let separator ← HybridSeparator.roformerAndDemucs machine dir names[0] names[1] overlap true
      return .hybrid separator
  | some .balanced => do
      let separator ← HybridSeparator.demucsSpecialists machine dir artefact overlap false
      return .hybrid separator
  | some .fast | none => do
      let separator ← MlxSeparator.load machine dir artefact overlap
      return .single separator

variable [FloorRing K]

/-- `Separate::separate`, of either arrangement. -/
def Separator.separate (root : K → K) (raised : Nat → Bool) (mix : Audio K) :
    Separator K → Except (SeparateError K) (Stems K)
  | .hybrid separator => (separator.tracedSeparate root raised mix 0).1.mapError .hybrid
  | .single separator => (separator.tracedSeparate root raised mix 0).1.mapError .single

end

def SeparateError.CalledOff {K : Type} (raised : Nat → Bool) : SeparateError K → Prop
  | .hybrid e => ∃ cause, e = .track cause ∧ Core.CalledOff raised cause
  | .single e => ∃ cause, e = .track cause ∧ Core.CalledOff raised cause

section

variable {K : Type} [Field K]

def Separable (dir : Artefacts K) (artefact : String) : Option Preset → Prop
  | some .quality =>
      Has dir "bs_polarformer" (fun w =>
        Roformer.BsRoformer.Stored w.toWeights (Architecture.of w.toWeights)) ∧
      Has dir "htdemucs_ft" fun w =>
        HtDemucs.Demucs.Stored (Settings.default : Settings K) w.toWeights (modelName drumsSource)
  | some .balanced => Has dir artefact fun w =>
      HtDemucs.Demucs.Stored (Settings.default : Settings K) w.toWeights
          (modelName vocalsSource) ∧
        HtDemucs.Demucs.Stored (Settings.default : Settings K) w.toWeights (modelName drumsSource)
  | some .fast | none => Has dir artefact Whole

variable [LinearOrder K] [FloorRing K]

def Separator.Serves (root : K → K) (separator : Separator K) : Prop :=
  ∀ (raised : Nat → Bool) (mix : Audio K), Suits audioChannels audioRate mix →
    Settles (Stems.Of mix) (SeparateError.CalledOff raised) (separator.separate root raised mix)

variable [IsStrictOrderedRing K]

theorem build_opens (machine : Machine K) (dir : Artefacts K) (artefact : String)
    (preset : Option Preset) {overlap : K} (shared : 0 ≤ overlap)
    (strides : 1 ≤ strideOf overlap shortestChunk) :
    Opens dir (Separable dir artefact preset) (Separator.Serves machine.root)
      (build machine dir artefact preset overlap) := by
  have halves (separator : HybridSeparator K (AnyError ModelError)) (sound : separator.Sound) :
      (Separator.hybrid separator).Serves machine.root := by
    intro raised mix suits
    obtain ⟨vocals, drums, shared, channels, rate⟩ := sound
    rw [← channels, ← rate] at suits
    exact (separator.separates raised machine.root vocals drums shared suits).mapError
      fun _ called => called
  have one : Opens dir (Has dir artefact Whole) (Separator.Serves machine.root)
      (MlxSeparator.load machine dir artefact overlap >>= fun separator =>
        .ok (.single separator)) := by
    refine (MlxSeparator.load_opens machine dir artefact shared strides).done Separator.single ?_
    rintro separator ⟨sound, channels, rate⟩ raised mix suits
    rw [← channels, ← rate] at suits
    exact (separator.separates raised machine.root sound suits).mapError fun _ called => called
  rcases preset with _ | _ | _ | _
  · exact one
  · exact one
  · exact (HybridSeparator.demucsSpecialists_opens machine dir artefact false shared strides).done
      Separator.hybrid halves
  · exact (HybridSeparator.roformerAndDemucs_opens machine dir "bs_polarformer" "htdemucs_ft" true
      shared strides).done Separator.hybrid halves

end

structure Site (K Path Dir : Type) where
  sha256 : Bytes → Bytes
  paths : Paths Path Dir
  pins : Pins
  /-- What mlx reads of a file of weights. -/
  parse : Bytes → Option (Artefact K)
  machine : Machine K
  dirs : List Path
  cache : Path
  offline : Bool
  overlap : K

section

variable {K Path Dir : Type} [DecidableEq Path] [DecidableEq Dir]

def Site.directory (site : Site K Path Dir) (disk : Disk Dir) (path : Path) : Artefacts K :=
  fun name => (disk.read (site.paths.place path) (name ++ weightsExtension)).bind site.parse

def Site.resolve (site : Site K Path Dir) (weather : RemoteFile → Weather) (artefact : String)
    (disk : Disk Dir) : Except ResolveError Path × Disk Dir :=
  resolveModels site.sha256 site.paths site.pins weather disk site.dirs site.cache
    (Preset.fromArtefact artefact) artefact site.offline

variable [Field K] [LinearOrder K]

def loadArtefact (site : Site K Path Dir) (weather : RemoteFile → Weather) (artefact : String)
    (disk : Disk Dir) : Except LaunchError (LoadedModel K) × Disk Dir :=
  let preset := Preset.fromArtefact artefact
  match site.resolve weather artefact disk with
  | (.error error, disk') => (.error (.resolve error), disk')
  | (.ok path, disk') =>
      let built := (build site.machine (site.directory disk' path) artefact preset
        site.overlap).mapError (.loading artefact)
      (built >>= fun separator => .ok ⟨preset, artefact, separator⟩, disk')

/-- The model named on the command line, or whatever the window last selected. -/
def loadModel (site : Site K Path Dir) (first second : RemoteFile → Weather)
    (given : Option String) (saved : Preset) (disk : Disk Dir) :
    Except LaunchError (LoadedModel K) × Disk Dir :=
  match given with
  | some requested => loadArtefact site first requested disk
  | none =>
      match loadArtefact site first saved.artefact disk with
      | (.ok loaded, disk') => (.ok loaded, disk')
      | (.error error, disk') =>
          if saved = defaultPreset then (.error error, disk')
          else loadArtefact site second defaultPreset.artefact disk'

def LaunchError.Blames (site : Site K Path Dir) (artefact : String) (disk' : Disk Dir) :
    LaunchError → Prop
  | .resolve error => ∃ weather disk, site.resolve weather artefact disk = (.error error, disk')
  | .loading name cause => name = artefact ∧ ∃ weather disk path,
      site.resolve weather artefact disk = (.ok path, disk') ∧
        ¬ Separable (site.directory disk' path) artefact (Preset.fromArtefact artefact) ∧
        cause.Holds (site.directory disk' path)

variable [FloorRing K] [IsStrictOrderedRing K]

structure LoadedModel.Ready (loaded : LoadedModel K) (root : K → K) (artefact : String) :
    Prop where
  named : loaded.artefact = artefact
  preset : loaded.preset = Preset.fromArtefact artefact
  serves : loaded.separator.Serves root

theorem loadArtefact_settles (site : Site K Path Dir) (weather : RemoteFile → Weather)
    (artefact : String) (disk : Disk Dir) (shared : 0 ≤ site.overlap)
    (strides : 1 ≤ strideOf site.overlap shortestChunk) :
    Settles (fun loaded : LoadedModel K => loaded.Ready site.machine.root artefact)
      (LaunchError.Blames site artefact (loadArtefact site weather artefact disk).2)
      (loadArtefact site weather artefact disk).1 := by
  unfold loadArtefact
  rcases resolved : site.resolve weather artefact disk with ⟨error | path, disk'⟩
  · exact ⟨weather, disk, resolved⟩
  · have opens := build_opens site.machine (site.directory disk' path) artefact
      (Preset.fromArtefact artefact) shared strides
    dsimp only
    cases built : build site.machine (site.directory disk' path) artefact
        (Preset.fromArtefact artefact) site.overlap with
    | error cause =>
        rw [built] at opens
        exact ⟨rfl, weather, disk, path, resolved, opens⟩
    | ok separator =>
        rw [built] at opens
        exact ⟨rfl, rfl, opens.2⟩

end

noncomputable def emptySite : Site ℝ Nat Nat where
  sha256 bytes := bytes
  paths := ⟨id, id, fun _ => rfl⟩
  pins := released
  parse _ := some ⟨⟨[], .nil⟩, by
    rintro path chout rest ⟨t, found, -⟩
    cases found⟩
  machine := ⟨Real.sqrt, fun k n => Real.cos (2.0 * Real.pi * k / n),
    ⟨Roformer.realFourier, Roformer.realActivations, Roformer.realAttending,
      Transformer.realPowers⟩, Roformer.realRuntime⟩
  dirs := [0]
  cache := 1
  offline := true
  overlap := 0.25

def emptyDisk : Disk Nat := ⟨[(0, ⟨"htdemucs.safetensors", []⟩)]⟩

end Stemd.Server
