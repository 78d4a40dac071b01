import Stemd.Core.Format
import Stemd.Models.Preset

/-! Preferences the window changes and the next launch remembers.

Two copies are kept: what the file says, and what this run uses. They differ where a flag
overrides one. Each is brought to a pair of format and rate that exists whenever it has
been changed. -/

set_option autoImplicit false

namespace Stemd.Preferences

open Stemd.Core
open Stemd.Models

structure Settings where
  preset : Preset
  format : StemFormat
  rate : OutputRate
  deriving DecidableEq, Repr

namespace Settings

def default : Settings := ⟨defaultPreset, .flac, .default⟩

/-- Bring the rate down to one the format can carry: the highest of them. -/
def reconcile (settings : Settings) : Settings :=
  if settings.format.carries settings.rate then settings
  else { settings with rate := settings.format.rates.getLast?.getD .default }

def Reconciled (settings : Settings) : Prop := settings.format.carries settings.rate = true

instance (settings : Settings) : Decidable settings.Reconciled :=
  inferInstanceAs (Decidable (_ = true))

theorem reconcile_eq {settings : Settings} (reconciled : settings.Reconciled) :
    settings.reconcile = settings := if_pos reconciled

theorem reconcile_reconciled (settings : Settings) : settings.reconcile.Reconciled := by
  obtain ⟨preset, format, rate⟩ := settings
  cases format <;> cases rate <;> rfl

@[simp] theorem reconcile_format (settings : Settings) :
    settings.reconcile.format = settings.format := by
  unfold reconcile
  split <;> rfl

theorem reconcile_rate_of_not {settings : Settings} (not : ¬ settings.Reconciled) :
    settings.rate = .hz96000 ∧ settings.reconcile.rate = .hz48000 := by
  obtain ⟨preset, format, rate⟩ := settings
  cases format <;> cases rate <;> first | exact absurd rfl not | exact ⟨rfl, rfl⟩

theorem default_reconciled : default.Reconciled := by decide

end Settings

/-- The shape on disk: every field by the text or number a flag would take, if at all. -/
structure Stored where
  model : Option String
  outputFormat : Option String
  outputSampleRate : Option Nat
  deriving DecidableEq, Repr

namespace Stored

def fromSettings (settings : Settings) : Stored where
  model := some settings.preset.artefact
  outputFormat := some settings.format.display
  outputSampleRate := some settings.rate.hz

/-- Defaults for anything absent or unrecognised. -/
def intoSettings (stored : Stored) : Settings :=
  Settings.reconcile {
    preset := (stored.model.bind Preset.fromArtefact).getD Settings.default.preset
    format := (stored.outputFormat.bind StemFormat.fromStr).getD Settings.default.format
    rate := (stored.outputSampleRate.bind OutputRate.fromHz).getD Settings.default.rate }

theorem intoSettings_reconciled (stored : Stored) : stored.intoSettings.Reconciled :=
  Settings.reconcile_reconciled _

/-- What was written is what the next launch reads. -/
theorem intoSettings_fromSettings {settings : Settings} (reconciled : settings.Reconciled) :
    (fromSettings settings).intoSettings = settings := by
  simp only [intoSettings, fromSettings, Option.bind_some, Preset.fromArtefact_artefact,
    StemFormat.fromStr_display, OutputRate.fromHz_hz, Option.getD_some]
  exact Settings.reconcile_eq reconciled

end Stored

/-- How documents are written as texts, and texts read as documents. -/
structure Json (Text : Type) where
  render : Stored → Text
  parse : Text → Option Stored
  parse_render : ∀ stored, parse (render stored) = some stored

def Json.plain : Json Stored := ⟨id, some, fun _ => rfl⟩

variable {Text : Type}

/-- What a settings file is read as; `none` where there is no usable one. -/
def load (json : Json Text) (file : Option Text) : Option Settings :=
  (file.bind json.parse).map Stored.intoSettings

def textOf (json : Json Text) (settings : Settings) : Text :=
  json.render (Stored.fromSettings settings)

theorem load_textOf (json : Json Text) {settings : Settings} (reconciled : settings.Reconciled) :
    load json (some (textOf json settings)) = some settings := by
  simp only [load, textOf, Option.bind_some, json.parse_render, Option.map_some,
    Stored.intoSettings_fromSettings reconciled]

structure State where
  saved : Settings
  current : Settings
  deriving DecidableEq, Repr

namespace State

structure Reconciled (state : State) : Prop where
  saved : state.saved.Reconciled
  current : state.current.Reconciled

def change (state : State) (change : Settings → Settings) : State :=
  ⟨(change state.saved).reconcile, (change state.current).reconcile⟩

theorem change_reconciled (state : State) (f : Settings → Settings) :
    (state.change f).Reconciled :=
  ⟨Settings.reconcile_reconciled _, Settings.reconcile_reconciled _⟩

/-- Read the file, or start from defaults if there is not a usable one. -/
def opened (json : Json Text) (file : Option Text) : State :=
  let saved := (load json file).getD Settings.default
  ⟨saved, saved⟩

theorem opened_reconciled (json : Json Text) (file : Option Text) :
    (opened json file).Reconciled := by
  suffices saved : ((load json file).getD Settings.default).Reconciled from ⟨saved, saved⟩
  unfold load
  cases file.bind json.parse with
  | none => exact Settings.default_reconciled
  | some stored => exact stored.intoSettings_reconciled

def pin (state : State) (format : Option StemFormat) (rate : Option OutputRate) : State :=
  let current := state.current
  { state with current := Settings.reconcile { current with
      format := format.getD current.format
      rate := rate.getD current.rate } }

end State

structure Pinned where
  format : Bool
  rate : Bool
  deriving DecidableEq, Repr

inductive Setter where
  | setPreset (preset : Preset)
  | setFormat (format : StemFormat)
  | setRate (rate : OutputRate)
  deriving DecidableEq, Repr

def Setter.apply : Setter → Settings → Settings
  | .setPreset preset, settings => { settings with preset := preset }
  | .setFormat format, settings => { settings with format := format }
  | .setRate rate, settings => { settings with rate := rate }

def Pinned.blocks (pinned : Pinned) : Setter → Bool
  | .setPreset _ => false
  | .setFormat _ => pinned.format
  | .setRate _ => pinned.rate

end Stemd.Preferences
