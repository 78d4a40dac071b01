import Stemd.Core.Float32
import Stemd.Models.Preset
import Stemd.Server.CacheKey

/-! What a configuration is called: in the server's own cache keys, and to clients.

A name is a list of fields parted by semicolons. Only the first field is not drawn from a
closed set, so a name is read from the right. Clients are told less: a name for the weights
and for how they are used, and none for the machine. -/

set_option autoImplicit false

namespace Stemd.Models

open Stemd.Core
open Stemd.Mlx
open Stemd.Semantics.Framing

structure Precisions where
  /-- `--full-precision`, whatever suits the model. -/
  forced : Option Precision
  on : Accelerator
  deriving DecidableEq, Repr

def Precisions.of (precisions : Precisions) (family : Family) : Precision :=
  match precisions.forced with
  | some precision => precision
  | none => Precision.preferred family precisions.on

def Precisions.forPreset (precisions : Precisions) (preset : Option Preset) : List Precision :=
  (Preset.families preset).map precisions.of

/-- One precision where all models agree, else all of them. -/
def Precisions.key (precisions : Precisions) (preset : Option Preset) : String :=
  let all := precisions.forPreset preset
  let joined := String.intercalate "+" (all.map Precision.display)
  match all with
  | first :: rest => if rest.all (· = first) then first.display else joined
  | [] => joined

def modelIdentity (pins : Pins) (preset : Preset) : String :=
  "m=" ++ preset.digest pins ++ ";r=" ++ toString preset.recipe

/-- Everything that changes the samples; `display` is how a 32-bit float is printed. -/
def identityOf (display : F32 → String) (pins : Pins) (model : Option Preset) (artefact : String)
    (precisions : Precisions) (overlap : F32) : String :=
  let m := match model with
    | some preset => modelIdentity pins preset
    | none => "m=custom:" ++ artefact
  m ++ ";p=" ++ precisions.key model ++ ";o=" ++ display overlap

def modelField (pins : Pins) (model : Option Preset) (artefact : String) : String :=
  match model with
  | some preset => modelIdentity pins preset
  | none => "m=custom:" ++ artefact

theorem identityOf_toList (display : F32 → String) (pins : Pins) (model : Option Preset)
    (artefact : String) (precisions : Precisions) (overlap : F32) :
    (identityOf display pins model artefact precisions overlap).toList =
      (modelField pins model artefact).toList ++ marked ';'
        [("p=" ++ precisions.key model).toList, ("o=" ++ display overlap).toList] := by
  have parts : identityOf display pins model artefact precisions overlap =
      modelField pins model artefact ++
        (";p=" ++ precisions.key model ++ ";o=" ++ display overlap) := by
    cases model <;> simp only [identityOf, modelField, String.append_assoc]
  rw [parts]
  simp [marked]

theorem Precisions.semicolon_not_mem_key (precisions : Precisions) (model : Option Preset) :
    ';' ∉ (precisions.key model).toList := by
  obtain ⟨forced, accelerator⟩ := precisions
  rcases forced with _ | _ | _ <;> cases accelerator <;> rcases model with _ | _ | _ | _ <;> decide

def leadingDigit : Preset → Char
  | .fast => '3'
  | .balanced => '5'
  | .quality => '9'

theorem modelIdentity_third (preset : Preset) :
    (modelIdentity released preset).toList[2]? = some (leadingDigit preset) := by
  cases preset <;> simp [modelIdentity, Preset.digest_eq, Preset.naming, released, leadingDigit]

/-- No pinned digest reads like the beginning of a custom name. -/
theorem modelField_third (model : Option Preset) (artefact : String) :
    (modelField released model artefact).toList[2]? = some 'c' ↔ model = none := by
  cases model with
  | none => simp [modelField]
  | some preset =>
      rw [modelField, modelIdentity_third]
      cases preset <;> decide

theorem modelIdentity_injective : Function.Injective (modelIdentity released) := by
  intro preset preset' same
  have digits := congrArg (fun identity => identity.toList[2]?) same
  simp only [modelIdentity_third, Option.some.injEq] at digits
  revert digits
  cases preset <;> cases preset' <;> decide

theorem modelField_injective {model model' : Option Preset} {artefact artefact' : String}
    (same : modelField released model artefact = modelField released model' artefact') :
    model = model' ∧ (model = none → artefact = artefact') := by
  have custom : model = none ↔ model' = none := by
    rw [← modelField_third model artefact, ← modelField_third model' artefact', same]
  cases model with
  | none =>
      obtain rfl : model' = none := custom.mp rfl
      have chars := congrArg String.toList same
      simp only [modelField, String.toList_append, List.append_cancel_left_eq] at chars
      exact ⟨rfl, fun _ => String.toList_inj.mp chars⟩
  | some preset =>
      cases model' with
      | none => cases custom.mpr rfl
      | some preset' =>
          exact ⟨congrArg some (modelIdentity_injective same), fun none => by cases none⟩

/-- An identity determines the model, its precision and its overlap, whatever name an
artefact is given. -/
theorem identityOf_injective (display : F32 → String) {model model' : Option Preset}
    {artefact artefact' : String} {precisions precisions' : Precisions} {overlap overlap' : F32}
    (faithful : display overlap = display overlap' → overlap = overlap')
    (free : ';' ∉ (display overlap).toList) (free' : ';' ∉ (display overlap').toList)
    (same : identityOf display released model artefact precisions overlap =
      identityOf display released model' artefact' precisions' overlap') :
    model = model' ∧ (model = none → artefact = artefact') ∧
      precisions.key model = precisions'.key model' ∧ overlap = overlap' := by
  have fieldsFree : ∀ (p : Precisions) (m : Option Preset) (o : F32), ';' ∉ (display o).toList →
      ∀ field ∈ [("p=" ++ p.key m).toList, ("o=" ++ display o).toList], ';' ∉ field := by
    intro p m o free field member
    have key := p.semicolon_not_mem_key m
    rcases List.mem_pair.mp member with rfl | rfl <;> simp [key, free]
  have chars := congrArg String.toList same
  rw [identityOf_toList, identityOf_toList] at chars
  obtain ⟨fronts, rest⟩ := marked_cancel (by rfl) (fieldsFree precisions model overlap free)
    (fieldsFree precisions' model' overlap' free') chars
  obtain ⟨models, artefacts⟩ := modelField_injective (String.toList_inj.mp fronts)
  simp only [List.cons.injEq, String.toList_append, List.append_cancel_left_eq,
    String.toList_inj, and_true] at rest
  exact ⟨models, artefacts, rest.1, faithful rest.2⟩

def crafted : String := "htdemucs;p=f32;o=0.25"

/-- The backend is not in the identity where it makes no difference, and an artefact that is named
after other fields keeps its own. -/
theorem crafted_name_is_its_own :
    ((⟨none, .metal⟩ : Precisions).key (some .fast) =
      (⟨none, .cuda⟩ : Precisions).key (some .fast)) ∧
    ((⟨some .f32, .metal⟩ : Precisions).key none = (⟨some .f32, .cuda⟩ : Precisions).key none) ∧
    ∀ precisions, identityOf (fun _ => "0.25") released none crafted precisions 0x3E800000 ≠
      identityOf (fun _ => "0.25") released none "htdemucs" ⟨some .f32, .cuda⟩ 0x3E800000 := by
  let quarter : F32 := 0x3E800000
  let display : F32 → String := fun _ => "0.25"
  have same : identityOf display released (some .fast) "htdemucs" ⟨none, .metal⟩ quarter =
      identityOf display released (some .fast) "htdemucs" ⟨none, .cuda⟩ quarter := rfl
  have same' : identityOf display released none crafted ⟨some .f32, .metal⟩ quarter =
      identityOf display released none crafted ⟨some .f32, .cuda⟩ quarter := rfl
  refine ⟨(identityOf_injective display (fun _ => rfl) (by decide) (by decide) same).2.2.1,
    (identityOf_injective display (fun _ => rfl) (by decide) (by decide) same').2.2.1,
    fun precisions alike => ?_⟩
  have name := (identityOf_injective display (fun _ => rfl) (by decide) (by decide) alike).2.1 rfl
  exact absurd name (by decide)

def maxId : Nat := 31

def digestChars : Nat := 8

def isPortable (c : Char) : Bool := c.isAlphanum || c = '-' || c = '.' || c = '_'

def portable (name : String) : String :=
  String.ofList (name.toList.map fun c => if isPortable c then c else '_')

section Published

variable (sha256 : Bytes → Bytes)

def shortDigest (text : String) : String :=
  String.ofList ((Server.lowerHex (sha256 (Server.utf8 text))).toList.take digestChars)

def tagged (label name : String) : String :=
  let overhead := (Server.utf8 label).length + 2 + digestChars
  let head := String.ofList ((portable name).toList.take (maxId - overhead))
  label ++ "-" ++ head ++ "-" ++ shortDigest sha256 name

def publishedIdentity (pins : Pins) (current : Option Preset) (artefact : String) : String :=
  match current with
  | some preset => preset.artefact ++ "-" ++ shortDigest sha256 (modelIdentity pins preset)
  | none => tagged sha256 "custom" artefact

/-- Wherever two builds differ in the weights of a preset, so do both its identities. -/
def CoversWeights (pins pins' : Pins) (preset : Preset) : Prop :=
  (∃ weights ∈ preset.weights, pins weights ≠ pins' weights) →
    modelIdentity pins preset ≠ modelIdentity pins' preset ∧
      ∀ artefact, publishedIdentity sha256 pins (some preset) artefact ≠
        publishedIdentity sha256 pins' (some preset) artefact

variable {sha256}

theorem modelIdentity_eq_iff {pins pins' : Pins} {preset : Preset} :
    modelIdentity pins preset = modelIdentity pins' preset ↔
      pins preset.naming = pins' preset.naming := by
  simp only [modelIdentity, Preset.digest_eq, String.append_assoc, String.append_right_inj,
    String.append_left_inj]

theorem publishedIdentity_eq_iff {pins pins' : Pins} {preset : Preset} {artefact : String} :
    publishedIdentity sha256 pins (some preset) artefact =
        publishedIdentity sha256 pins' (some preset) artefact ↔
      shortDigest sha256 (modelIdentity pins preset) =
        shortDigest sha256 (modelIdentity pins' preset) := by
  simp only [publishedIdentity, String.append_right_inj]

/-- The identities cover the weights of a preset as long as no others of its files are
pinned anew without those that name it. -/
theorem coversWeights_iff {pins pins' : Pins} {preset : Preset}
    (apart : shortDigest sha256 (modelIdentity pins preset) =
        shortDigest sha256 (modelIdentity pins' preset) →
      modelIdentity pins preset = modelIdentity pins' preset) :
    CoversWeights sha256 pins pins' preset ↔
      (pins preset.naming = pins' preset.naming →
        ∀ weights ∈ preset.weights, pins weights = pins' weights) := by
  constructor
  · intro covers same weights member
    by_contra differs
    exact (covers ⟨weights, member, differs⟩).1 (modelIdentity_eq_iff.mpr same)
  · rintro together ⟨weights, member, differs⟩
    have model : modelIdentity pins preset ≠ modelIdentity pins' preset := fun same =>
      differs (together (modelIdentity_eq_iff.mp same) weights member)
    exact ⟨model, fun artefact same => model (apart (publishedIdentity_eq_iff.mp same))⟩

end Published

/-- A build in which `htdemucs_ft` has been trained again, and nothing else. -/
def retrained : Pins
  | .htdemucsFt => "ba7816bf8f01cfea414140de5dae2223b00361a396177a9cb410ff61f20015ad"
  | weights => released weights

/-- Quality loads that file second, and goes by the first. -/
theorem quality_keeps_its_identity :
    ¬ ∀ (sha256 : Bytes → Bytes) (pins pins' : Pins) (preset : Preset),
      (shortDigest sha256 (modelIdentity pins preset) =
          shortDigest sha256 (modelIdentity pins' preset) →
        modelIdentity pins preset = modelIdentity pins' preset) →
      CoversWeights sha256 pins pins' preset := by
  intro covers
  have same : modelIdentity released .quality = modelIdentity retrained .quality :=
    modelIdentity_eq_iff.mpr rfl
  have differs : released .htdemucsFt ≠ retrained .htdemucsFt := by
    simp [released, retrained]
  exact (covers id released retrained .quality (fun _ => same)
    ⟨.htdemucsFt, by decide, differs⟩).1 same

def recordedIdentityDigest (text : Bytes) : Bytes :=
  if text = Server.utf8 (modelIdentity released .balanced) then
    [176, 26, 186, 44, 83, 179, 66, 212, 184, 141, 116, 21, 249, 84, 225, 108, 190, 23, 97, 222,
      86, 60, 1, 119, 214, 148, 25, 69, 102, 57, 36, 14]
  else
    [226, 32, 246, 39, 152, 81, 192, 10, 133, 197, 117, 244, 79, 42, 93, 231, 9, 102, 46, 211,
      55, 197, 178, 241, 184, 40, 96, 173, 93, 99, 234, 231]

theorem balanced_is_renamed :
    CoversWeights recordedIdentityDigest released retrained .balanced := by
  have differs : modelIdentity released .balanced ≠ modelIdentity retrained .balanced := by
    simp [modelIdentity_eq_iff, Preset.naming, released, retrained]
  have other : Server.utf8 (modelIdentity retrained .balanced) ≠
      Server.utf8 (modelIdentity released .balanced) := fun same =>
    differs (Server.utf8_injective same).symm
  refine (coversWeights_iff fun same => ?_).mpr fun same weights member => ?_
  · simp only [shortDigest, recordedIdentityDigest, if_neg other] at same
    exact absurd (congrArg String.toList same) (by decide)
  · obtain rfl := List.mem_singleton.mp member
    exact same

end Stemd.Models
