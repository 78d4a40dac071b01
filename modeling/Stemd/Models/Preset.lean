import Stemd.Mlx.Precision

/-! The model catalogue: which files each preset loads, and what they are pinned to.

The digests are a parameter, since they are what differs from one build to the next.
`released` holds those of this one. -/

set_option autoImplicit false

namespace Stemd.Models

open Stemd.Mlx

structure RemoteFile where
  name : String
  url : String
  sha256 : String
  deriving DecidableEq, Repr

structure ModelSource where
  files : List RemoteFile
  deriving DecidableEq, Repr

inductive Weights where
  | htdemucs
  | htdemucsFt
  | bsPolarformer
  deriving DecidableEq, Repr

def Weights.name : Weights → String
  | .htdemucs => "htdemucs.safetensors"
  | .htdemucsFt => "htdemucs_ft.safetensors"
  | .bsPolarformer => "bs_polarformer.safetensors"

abbrev Pins := Weights → String

def released : Pins
  | .htdemucs => "339d267a7a6983a11eedbdc00413c602a65e9b9103f695fb5c2b2a481cd9d297"
  | .htdemucsFt => "53f03b1ad4b4d211025a35da65460ba61a17547adf9c0544cad0ebcc8d7bbabb"
  | .bsPolarformer => "9e08a5e075204e893a4eb393ae64d47177c76f11a306686db1343d7cc7c468f6"

def Weights.remote (pins : Pins) (weights : Weights) : RemoteFile where
  name := weights.name
  url := "https://github.com/nsaintot/stemd/releases/download/models-v2/" ++ weights.name
  sha256 := pins weights

inductive Preset where
  | fast
  | balanced
  | quality
  deriving DecidableEq, Repr

def Preset.all : List Preset := [.fast, .balanced, .quality]

/-- What the settings file calls the preset, and the launch takes as a model. -/
def Preset.artefact : Preset → String
  | .fast => "htdemucs"
  | .balanced => "htdemucs_ft"
  | .quality => "bs_polarformer"

/-- Every artefact the preset needs loaded, the naming one first. -/
def Preset.artefacts : Preset → List String
  | .fast => ["htdemucs"]
  | .balanced => ["htdemucs_ft"]
  | .quality => ["bs_polarformer", "htdemucs_ft"]

def Preset.weights : Preset → List Weights
  | .fast => [.htdemucs]
  | .balanced => [.htdemucsFt]
  | .quality => [.bsPolarformer, .htdemucsFt]

def Preset.source (pins : Pins) (preset : Preset) : ModelSource :=
  ⟨preset.weights.map (Weights.remote pins)⟩

def Preset.families : Option Preset → List Family
  | some .quality => [.roformer, .htDemucs]
  | some .balanced => [.htDemucs, .htDemucs]
  | some .fast | none => [.htDemucs]

/-- How the preset uses its weights, bumped when that changes. -/
def Preset.recipe : Preset → Nat
  | .fast => 1
  | .balanced => 2
  | .quality => 2

def weightsExtension : String := ".safetensors"

def RemoteFile.isWeights (file : RemoteFile) : Bool :=
  weightsExtension.toList.isSuffixOf file.name.toList

def Preset.digest (pins : Pins) (preset : Preset) : String :=
  match (preset.source pins).files.find? RemoteFile.isWeights with
  | some file => file.sha256
  | none => preset.artefact

def Preset.fromArtefact (name : String) : Option Preset :=
  Preset.all.find? fun preset => preset.artefact = name

def defaultPreset : Preset := .fast

theorem Weights.remote_isWeights (pins : Pins) (weights : Weights) :
    (weights.remote pins).isWeights = true := by
  change weightsExtension.toList.isSuffixOf weights.name.toList = true
  cases weights <;> decide

/-- The loader looks for the artefacts' files, and the catalogue lists exactly those. -/
theorem Preset.source_names (pins : Pins) (preset : Preset) :
    (preset.source pins).files.map RemoteFile.name =
      preset.artefacts.map fun artefact => artefact ++ weightsExtension := by
  rw [source, List.map_map]
  change preset.weights.map Weights.name = _
  cases preset <;> decide

def Preset.naming : Preset → Weights
  | .fast => .htdemucs
  | .balanced => .htdemucsFt
  | .quality => .bsPolarformer

/-- A preset is identified by the weights that name it, and by no others. -/
theorem Preset.digest_eq (pins : Pins) (preset : Preset) :
    preset.digest pins = pins preset.naming := by
  cases preset <;> simp [digest, source, weights, naming, Weights.remote_isWeights] <;> rfl

theorem Preset.fromArtefact_artefact (preset : Preset) :
    fromArtefact preset.artefact = some preset := by
  cases preset <;> decide

end Stemd.Models
