/-! Sample encodings, stem containers, output rates and conversion filters, with the
texts by which the wire, the settings file and the cache key name them. -/

set_option autoImplicit false

namespace Stemd.Core

inductive PcmFormat where
  | s16le
  | f32le
  deriving DecidableEq, Repr

def PcmFormat.bytesPerSample : PcmFormat → Nat
  | .s16le => 2
  | .f32le => 4

def PcmFormat.display : PcmFormat → String
  | .s16le => "s16le"
  | .f32le => "f32le"

inductive StemFormat where
  | flac
  | wav
  | mp3
  | pcm16
  | pcm32
  deriving DecidableEq, Repr

def StemFormat.display : StemFormat → String
  | .flac => "flac"
  | .wav => "wav"
  | .mp3 => "mp3"
  | .pcm16 => "pcm16"
  | .pcm32 => "pcm32"

inductive OutputRate where
  | hz24000
  | hz44100
  | hz48000
  | hz96000
  deriving DecidableEq, Repr

def OutputRate.hz : OutputRate → Nat
  | .hz24000 => 24000
  | .hz44100 => 44100
  | .hz48000 => 48000
  | .hz96000 => 96000

def OutputRate.display (rate : OutputRate) : String := toString rate.hz

inductive DspMode where
  | general
  | mode1
  deriving DecidableEq, Repr

def DspMode.id : DspMode → Nat
  | .general => 0
  | .mode1 => 1

def DspMode.display (mode : DspMode) : String := toString mode.id

/-- Only MP3 constrains the rate: it has no 96 kHz mode. -/
def StemFormat.carries (format : StemFormat) (rate : OutputRate) : Bool :=
  match format, rate with
  | .mp3, .hz96000 => false
  | _, _ => true

def OutputRate.all : List OutputRate := [.hz24000, .hz44100, .hz48000, .hz96000]

def OutputRate.default : OutputRate := .hz44100

def OutputRate.fromHz (hz : Nat) : Option OutputRate := OutputRate.all.find? fun rate => rate.hz = hz

def StemFormat.fromStr (text : String) : Option StemFormat :=
  if text = "flac" then some .flac
  else if text = "wav" then some .wav
  else if text = "mp3" then some .mp3
  else if text = "pcm16" ∨ text = "s16le" ∨ text = "s16" then some .pcm16
  else if text = "pcm32" ∨ text = "f32le" ∨ text = "f32" then some .pcm32
  else none

def PcmFormat.fromStr (text : String) : Option PcmFormat :=
  if text = "s16le" ∨ text = "s16" then some .s16le
  else if text = "f32le" ∨ text = "f32" then some .f32le
  else none

def StemFormat.rates (format : StemFormat) : List OutputRate :=
  OutputRate.all.filter format.carries

/-- `char::is_whitespace` -/
def isWhitespace (c : Char) : Bool :=
  let n := c.toNat
  (9 ≤ n && n ≤ 13) || (0x2000 ≤ n && n ≤ 0x200a) ||
    [0x20, 0x85, 0xa0, 0x1680, 0x2028, 0x2029, 0x202f, 0x205f, 0x3000].contains n

def trim (text : String) : String :=
  String.ofList ((text.toList.dropWhile isWhitespace).reverse.dropWhile isWhitespace).reverse

/-- The rate in Hz, and the kHz spellings a person would type. -/
def OutputRate.fromStr (text : String) : Option OutputRate :=
  let text := trim text
  if text = "24000" ∨ text = "24k" ∨ text = "24" then some .hz24000
  else if text = "44100" ∨ text = "44.1k" ∨ text = "44.1" then some .hz44100
  else if text = "48000" ∨ text = "48k" ∨ text = "48" then some .hz48000
  else if text = "96000" ∨ text = "96k" ∨ text = "96" then some .hz96000
  else none

def DspMode.all : List DspMode := [.general, .mode1]

def DspMode.tryFrom (id : Nat) : Option DspMode := DspMode.all.find? fun mode => mode.id = id

/-- `str::parse::<u8>` -/
def parseU8 (text : String) : Option Nat :=
  let digits : List Char := match text.toList with
    | '+' :: rest => rest
    | all => all
  let value := digits.foldl (fun n c => n * 10 + (c.toNat - 48)) 0
  if digits ≠ [] ∧ digits.all (·.isDigit) ∧ value < 256 then some value else none

def DspMode.fromStr (text : String) : Option DspMode := (parseU8 (trim text)).bind DspMode.tryFrom

theorem OutputRate.fromHz_hz (rate : OutputRate) : fromHz rate.hz = some rate := by
  cases rate <;> decide

theorem StemFormat.fromStr_display (format : StemFormat) : fromStr format.display = some format := by
  cases format <;> decide

theorem PcmFormat.fromStr_display (format : PcmFormat) : fromStr format.display = some format := by
  cases format <;> decide

theorem OutputRate.fromStr_display (rate : OutputRate) : fromStr rate.display = some rate := by
  cases rate <;> decide

theorem DspMode.fromStr_display (mode : DspMode) : fromStr mode.display = some mode := by
  cases mode <;> decide

example : DspMode.fromStr " +01 " = some .mode1 := by decide

/-- The one conversion a numbered mode covers. -/
def DspMode.onlyPair : DspMode → Option (Nat × Nat)
  | .general => none
  | .mode1 => some (44100, 96000)

theorem PcmFormat.display_injective : ∀ a b : PcmFormat, a.display = b.display → a = b := by
  rintro (_ | _) (_ | _) same <;> first | rfl | exact absurd same (by decide)

theorem StemFormat.display_injective : ∀ a b : StemFormat, a.display = b.display → a = b := by
  rintro (_ | _ | _ | _ | _) (_ | _ | _ | _ | _) same <;>
    first | rfl | exact absurd same (by decide)

theorem OutputRate.hz_injective : ∀ a b : OutputRate, a.hz = b.hz → a = b := by
  rintro (_ | _ | _ | _) (_ | _ | _ | _) same <;> first | rfl | exact absurd same (by decide)

theorem DspMode.id_injective : ∀ a b : DspMode, a.id = b.id → a = b := by
  rintro (_ | _) (_ | _) same <;> first | rfl | exact absurd same (by decide)

structure Output where
  format : StemFormat
  rate : OutputRate
  /-- Ship the derived part as well. -/
  derived : Bool
  dsp : DspMode
  deriving DecidableEq, Repr

end Stemd.Core
