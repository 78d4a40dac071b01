import Mathlib.Data.List.Basic
import Std.Data.String.ToNat
import Stemd.Core.Format
import Stemd.Semantics.Framing

/-! What a separation is filed under.

The preimage is the payload as received followed by length-prefixed texts. The
digest function is a parameter: facts about keys hold for any two inputs that it
does not confuse. -/

set_option autoImplicit false

namespace Stemd.Server

open Stemd.Core
open Stemd.Semantics.Framing

def epoch : Nat := 2

structure Ingredients where
  pcm : Bytes
  sampleRate : UInt32
  channels : UInt64
  inFormat : PcmFormat
  outFormat : StemFormat
  outRate : OutputRate
  includeDerived : Bool
  dsp : DspMode
  model : String
  deriving DecidableEq

/-- The texts in front of the model's, in the order they are hashed. -/
def Ingredients.settings (ingredients : Ingredients) : List String :=
  [toString epoch, toString ingredients.sampleRate.toNat, toString ingredients.channels.toNat,
    ingredients.inFormat.display, ingredients.outFormat.display, ingredients.outRate.display,
    toString ingredients.includeDerived, ingredients.dsp.display]

def utf8 (text : String) : Bytes := text.toList.flatMap String.utf8EncodeChar

def Ingredients.preimage (ingredients : Ingredients) : Bytes :=
  ingredients.pcm ++ fields ((ingredients.settings ++ [ingredients.model]).map utf8)

def lowerHex (digest : Bytes) : String :=
  String.ofList
    (digest.flatMap fun b => [Nat.digitChar (b.toNat / 16), Nat.digitChar (b.toNat % 16)])

def key (sha256 : Bytes → Bytes) (ingredients : Ingredients) : String :=
  lowerHex (sha256 ingredients.preimage)

theorem digitChar_injective : ∀ a b : Fin 16, a.val.digitChar = b.val.digitChar → a = b := by
  decide

theorem lowerHex_injective : Function.Injective lowerHex := by
  intro left right same
  have chars := congrArg String.toList same
  simp only [lowerHex, String.toList_ofList] at chars
  induction left generalizing right with
  | nil => cases right with
    | nil => rfl
    | cons _ _ => simp at chars
  | cons b rest ih => cases right with
    | nil => simp at chars
    | cons c rest' =>
        simp only [List.flatMap_cons, List.cons_append, List.nil_append, List.cons.injEq] at chars
        obtain ⟨high, low, rests⟩ := chars
        have boundB := b.toNat_lt
        have boundC := c.toNat_lt
        have high := digitChar_injective ⟨b.toNat / 16, by omega⟩ ⟨c.toNat / 16, by omega⟩ high
        have low := digitChar_injective ⟨b.toNat % 16, by omega⟩ ⟨c.toNat % 16, by omega⟩ low
        simp only [Fin.mk.injEq] at high low
        have bytes : b = c := UInt8.toNat_inj.mp (by omega)
        rw [bytes, ih (congrArg String.ofList rests) rests]

theorem utf8_injective : Function.Injective utf8 := by
  intro left right same
  have bytes : left.toByteArray = right.toByteArray := by
    rw [← String.ofList_toList (s := left), ← String.ofList_toList (s := right),
      String.toByteArray_ofList, String.toByteArray_ofList, List.utf8Encode, List.utf8Encode]
    exact congrArg List.toByteArray same
  exact String.toByteArray_inj.mp bytes

def Plain (text : String) : Prop := ∀ c ∈ text.toList, c.val ≠ 0 ∧ c.val ≤ 127

instance (text : String) : Decidable (Plain text) :=
  List.decidableBAll (fun c : Char => c.val ≠ 0 ∧ c.val ≤ 127) text.toList

theorem utf8_of_plain {text : String} (plain : Plain text) :
    utf8 text = text.toList.map fun c => UInt8.ofNat c.val.toNat := by
  rw [utf8, ← List.flatMap_singleton' (text.toList.map _), List.flatMap_map]
  apply List.flatMap_congr
  intro c member
  have bound : c.val.toNat ≤ 127 := UInt32.le_iff_toNat_le.mp (plain c member).2
  simp only [String.utf8EncodeChar, if_pos bound]

theorem framed_of_plain {text : String} (plain : Plain text)
    (short : text.toList.length < 2 ^ 24) : Framed (utf8 text) := by
  rw [utf8_of_plain plain]
  refine ⟨fun nul => ?_, by simpa using short⟩
  obtain ⟨c, member, zero⟩ := List.mem_map.mp nul
  have bound : c.val.toNat ≤ 127 := UInt32.le_iff_toNat_le.mp (plain c member).2
  have value : (UInt8.ofNat c.val.toNat).toNat = c.val.toNat :=
    UInt8.toNat_ofNat_of_lt' (Nat.lt_of_le_of_lt bound (by decide))
  exact (plain c member).1 (UInt32.toNat_inj.mp (by rw [← value, zero]; rfl))

theorem ofNat_ne_zero {n : Nat} (positive : 0 < n) (bound : n < 256) : 0 ≠ UInt8.ofNat n := by
  intro zero
  have value := UInt8.toNat_ofNat_of_lt' bound
  rw [← zero, UInt8.toNat_zero] at value
  omega

/-- Every byte of a longer encoding carries its top bit. -/
theorem val_eq_zero_of_nul {c : Char} (nul : 0 ∈ String.utf8EncodeChar c) : c.val = 0 := by
  simp only [String.utf8EncodeChar] at nul
  apply UInt32.toNat_inj.mp
  rw [UInt32.toNat_zero]
  split at nul
  · apply Classical.byContradiction
    intro positive
    exact ofNat_ne_zero (by omega) (by omega) (List.mem_singleton.mp nul)
  · exfalso
    split at nul
    · simp only [List.mem_cons, List.not_mem_nil, or_false] at nul
      rcases nul with first | second
      · exact ofNat_ne_zero (by omega) (by omega) first
      · exact ofNat_ne_zero (by omega) (by omega) second
    · split at nul <;> simp only [List.mem_cons, List.not_mem_nil, or_false] at nul
      · rcases nul with first | second | third
        · exact ofNat_ne_zero (by omega) (by omega) first
        · exact ofNat_ne_zero (by omega) (by omega) second
        · exact ofNat_ne_zero (by omega) (by omega) third
      · rcases nul with first | second | third | fourth
        · exact ofNat_ne_zero (by omega) (by omega) first
        · exact ofNat_ne_zero (by omega) (by omega) second
        · exact ofNat_ne_zero (by omega) (by omega) third
        · exact ofNat_ne_zero (by omega) (by omega) fourth

theorem utf8_nulFree {text : String} (nulFree : ∀ c ∈ text.toList, c.val ≠ 0) :
    NulFree (utf8 text) := by
  intro nul
  obtain ⟨c, member, nul⟩ := List.mem_flatMap.mp nul
  exact nulFree c member (val_eq_zero_of_nul nul)

/-- What a process can be given on its command line: no NUL, far shorter than 16 MiB. -/
structure Argument (text : String) : Prop where
  nulFree : ∀ c ∈ text.toList, c.val ≠ 0
  short : (utf8 text).length < 2 ^ 24

theorem Argument.framed {text : String} (argument : Argument text) : Framed (utf8 text) :=
  ⟨utf8_nulFree argument.nulFree, argument.short⟩

theorem toString_nat_plain (n : Nat) : Plain (toString n) := by
  intro c member
  have digit : c.isDigit := by
    rw [Nat.toString_eq_repr, Nat.repr_eq_ofList_toDigits, String.toList_ofList] at member
    exact Nat.isDigit_of_mem_toDigits (by decide) (by decide) member
  simp only [Char.isDigit, Bool.and_eq_true, decide_eq_true_eq] at digit
  constructor
  · rintro zero
    exact absurd (zero ▸ digit.1) (by decide)
  · exact UInt32.le_trans digit.2 (by decide)

theorem toString_nat_framed {n : Nat} (bound : n < 10 ^ 20) : Framed (utf8 (toString n)) := by
  apply framed_of_plain (toString_nat_plain n)
  have length : (toString n).length ≤ 20 := by
    rw [Nat.toString_eq_repr]
    exact (Nat.length_repr_le_iff (by decide)).mpr bound
  rw [String.length_toList]
  omega

theorem settings_framed (ingredients : Ingredients) :
    ∀ text ∈ ingredients.settings, Framed (utf8 text) := by
  have rate := ingredients.sampleRate.toNat_lt
  have channels := ingredients.channels.toNat_lt
  have display : ∀ text ∈ ["s16le", "f32le", "flac", "wav", "mp3", "pcm16", "pcm32", "true",
      "false"], Framed (utf8 text) := by
    intro text member
    have plain : Plain text ∧ text.toList.length ≤ 5 := by
      revert text
      decide
    exact framed_of_plain plain.1 (by omega)
  simp only [Ingredients.settings, List.forall_mem_cons, List.not_mem_nil, false_implies,
    implies_true, and_true]
  refine ⟨toString_nat_framed (by decide), toString_nat_framed (by omega),
    toString_nat_framed (by omega), ?_, ?_, ?_, ?_, ?_⟩
  · exact display _ (by cases ingredients.inFormat <;> decide)
  · exact display _ (by cases ingredients.outFormat <;> decide)
  · exact toString_nat_framed (by cases ingredients.outRate <;> decide)
  · exact display _ (by cases ingredients.includeDerived <;> decide)
  · exact toString_nat_framed (by cases ingredients.dsp <;> decide)

theorem toString_nat_injective {m n : Nat} (same : toString m = toString n) : m = n :=
  Nat.repr_injective (by simpa only [Nat.toString_eq_repr] using same)

theorem settings_injective {left right : Ingredients} (same : left.settings = right.settings) :
    left.sampleRate = right.sampleRate ∧ left.channels = right.channels ∧
      left.inFormat = right.inFormat ∧ left.outFormat = right.outFormat ∧
      left.outRate = right.outRate ∧ left.includeDerived = right.includeDerived ∧
      left.dsp = right.dsp := by
  simp only [Ingredients.settings, List.cons.injEq, and_true, true_and] at same
  obtain ⟨rate, channels, inFormat, outFormat, outRate, derived, dsp⟩ := same
  refine ⟨UInt32.toNat_inj.mp (toString_nat_injective rate),
    UInt64.toNat_inj.mp (toString_nat_injective channels),
    PcmFormat.display_injective _ _ inFormat, StemFormat.display_injective _ _ outFormat,
    OutputRate.hz_injective _ _ (toString_nat_injective outRate), ?_,
    DspMode.id_injective _ _ (toString_nat_injective dsp)⟩
  revert derived
  cases left.includeDerived <;> cases right.includeDerived <;> decide

theorem eq_of_parts_eq {left right : Ingredients} (payload : left.pcm = right.pcm)
    (settings : left.settings = right.settings) (model : left.model = right.model) :
    left = right := by
  obtain ⟨rate, channels, inFormat, outFormat, outRate, derived, dsp⟩ :=
    settings_injective settings
  obtain ⟨_, _, _, _, _, _, _, _, _⟩ := left
  obtain ⟨_, _, _, _, _, _, _, _, _⟩ := right
  simp_all

/-- For one model the preimage determines every ingredient, whatever the model's text. -/
theorem eq_of_preimage_eq {left right : Ingredients} (model : left.model = right.model)
    (same : left.preimage = right.preimage) : left = right := by
  simp only [Ingredients.preimage, model, List.map_append, fields, List.flatMap_append,
    ← List.append_assoc, List.append_cancel_right_eq] at same
  obtain ⟨payload, texts⟩ := fields_cancel (by simp [Ingredients.settings])
    (List.forall_mem_map.mpr (settings_framed left))
    (List.forall_mem_map.mpr (settings_framed right)) same
  exact eq_of_parts_eq payload (List.map_injective_iff.mpr utf8_injective texts) model

/-- Read from the right, the model comes first: its text has to be framed as well. -/
theorem model_eq_of_preimage_eq {left right : Ingredients} (argument : Argument left.model)
    (argument' : Argument right.model) (same : left.preimage = right.preimage) :
    left.model = right.model := by
  simp only [Ingredients.preimage, List.map_append, fields, List.flatMap_append,
    List.map_singleton, List.flatMap_singleton, ← List.append_assoc] at same
  exact utf8_injective (field_cancel argument.framed argument'.framed same).2

def NoCollision (sha256 : Bytes → Bytes) (left right : Ingredients) : Prop :=
  sha256 left.preimage = sha256 right.preimage → left.preimage = right.preimage

theorem eq_of_key_eq {sha256 : Bytes → Bytes} {left right : Ingredients}
    (model : left.model = right.model) (apart : NoCollision sha256 left right)
    (same : key sha256 left = key sha256 right) : left = right :=
  eq_of_preimage_eq model (apart (lowerHex_injective same))

/-- Equal streams and equal keys come from equal ingredients only, whichever models they
name and whatever their payloads imitate. -/
theorem ingredients_determined {left right : Ingredients} (argument : Argument left.model)
    (argument' : Argument right.model) :
    (left.preimage = right.preimage ↔ left = right) ∧
      ∀ sha256 : Bytes → Bytes, NoCollision sha256 left right →
        (key sha256 left = key sha256 right ↔ left = right) := by
  have determined : left.preimage = right.preimage → left = right := fun same =>
    eq_of_preimage_eq (model_eq_of_preimage_eq argument argument' same) same
  constructor
  · constructor
    · exact determined
    · exact congrArg Ingredients.preimage
  · intro sha256 apart
    constructor
    · intro same
      exact determined (apart (lowerHex_injective same))
    · exact congrArg (key sha256)

def silence : Ingredients where
  pcm := []
  sampleRate := 44100
  channels := 2
  inFormat := .s16le
  outFormat := .flac
  outRate := .hz44100
  includeDerived := true
  dsp := .general
  model := "htdemucs"

def imitation : Ingredients := { silence with pcm := silence.preimage }

def recordedDigest (stream : Bytes) : Bytes :=
  if stream = silence.preimage then
    [166, 195, 60, 179, 20, 80, 153, 50, 251, 242, 148, 104, 186, 54, 144, 29, 134, 157, 111,
      96, 31, 166, 108, 171, 56, 177, 162, 13, 115, 67, 8, 63]
  else
    [167, 212, 31, 37, 126, 244, 31, 9, 8, 214, 19, 213, 83, 175, 170, 42, 43, 201, 112, 16,
      148, 206, 144, 150, 233, 145, 42, 133, 12, 14, 105, 59]

theorem htdemucs_argument : Argument "htdemucs" :=
  ⟨List.forall_iff_forall_mem.mp (by decide), by decide⟩

theorem imitation_is_told_apart :
    silence.preimage ≠ imitation.preimage ∧
      key recordedDigest silence ≠ key recordedDigest imitation := by
  have apart : NoCollision recordedDigest silence imitation := by
    unfold NoCollision
    decide
  have determined : (silence.preimage = imitation.preimage ↔ silence = imitation) ∧
      ∀ sha256 : Bytes → Bytes, NoCollision sha256 silence imitation →
        (key sha256 silence = key sha256 imitation ↔ silence = imitation) :=
    ingredients_determined htdemucs_argument htdemucs_argument
  exact ⟨determined.1.not.mpr (by decide), (determined.2 recordedDigest apart).not.mpr (by decide)⟩

end Stemd.Server
