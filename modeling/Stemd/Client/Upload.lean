import Std.Data.String.ToNat
import Stemd.Client.Accuracy
import Stemd.Server.Submission

/-! What the command-line client uploads, and what the server makes of it.

The client asks the server for its limits and holds the arguments and the track to them before it
spends an upload. The server holds the query to the same limits again, from its text. -/

set_option autoImplicit false

namespace Stemd.Client

open Stemd.Core Stemd.Semantics Stemd.Server

structure Args where
  f32 : Bool
  outputSampleRate : Option UInt32
  includeDerived : Bool
  dspMode : Option UInt8

/-- What the client reads of a server's health. A list is empty when the server is too old to have
it. -/
structure Health (D : Type) where
  sampleRate : UInt32
  maxTrackSeconds : D
  outputSampleRates : List UInt32
  dspModes : List UInt8

structure Formats where
  upload : String
  download : String
  rate : Option UInt32
  derived : Bool
  dsp : Option UInt8

inductive LocalError (D : Type) where
  /-- `this server converts to {offered} Hz, not {rate}` -/
  | rate (offered : List UInt32) (rate : UInt32)
  /-- `this server offers dsp mode {offered}, not {mode}` -/
  | dspMode (offered : List UInt8) (mode : UInt8)
  /-- `track is {minutes} minutes; this server accepts up to {minutes}` -/
  | tooLong (secs limit : D)

def Formats.new (f32Everywhere : Bool) : Formats :=
  if f32Everywhere then ⟨"f32le", "f32le", none, false, none⟩
  else ⟨"s16le", "flac", none, false, none⟩

def Formats.atRate (formats : Formats) (rate : Option UInt32) : Formats :=
  { formats with rate := rate }

def Formats.withDerived (formats : Formats) (derived : Bool) : Formats :=
  { formats with derived := derived }

def Formats.withDspMode (formats : Formats) (dsp : Option UInt8) : Formats :=
  { formats with dsp := dsp }

def Args.formats (args : Args) : Formats :=
  (((Formats.new args.f32).atRate args.outputSampleRate).withDerived
    args.includeDerived).withDspMode args.dspMode

def Formats.query (formats : Formats) (sampleRate : UInt32) : CreateParams where
  sampleRate := sampleRate
  channels := 2
  format := some formats.upload
  outputFormat := some formats.download
  outputSampleRate := formats.rate.map toString
  includeDerived := if formats.derived then some true else none
  dspMode := formats.dsp.map toString

section

variable {D : Type}

def Health.of (state : AppView D) : Health D where
  sampleRate := state.modelRate
  maxTrackSeconds := state.maxTrackSecs
  outputSampleRates := OutputRate.all.map fun rate => UInt32.ofNat rate.hz
  dspModes := DspMode.all.map fun mode => UInt8.ofNat mode.id

/-- One of the two checks of `check_rate`: skipped when the server does not say. -/
def offered {α : Type} [DecidableEq α] (asked : Option α) (list : List α)
    (refusal : List α → α → LocalError D) : Except (LocalError D) Unit :=
  match asked with
  | some value => ensure (list = [] ∨ value ∈ list) (refusal list value)
  | none => .ok ()

/-- Refuse a rate or a mode this server does not offer. -/
def checkRate (args : Args) (health : Health D) : Except (LocalError D) Unit := do
  offered args.outputSampleRate health.outputSampleRates .rate
  offered args.dspMode health.dspModes .dspMode

variable [Seconds D]

/-- `Decoded::duration_secs` -/
def durationSecs (audio : Audio ℚ) : D := Seconds.ratio audio.frames audio.sampleRate

/-- `load_input`, from what was decoded. -/
def loadInput (audio : Audio ℚ) (health : Health D) : Except (LocalError D) (Audio ℚ) := do
  ensure (Seconds.exceeds (durationSecs audio) health.maxTrackSeconds = false)
    (.tooLong (durationSecs audio) health.maxTrackSeconds)
  .ok audio

/-- All that `main` does before the server sees any of it: the query and the body it sends. -/
def upload (args : Args) (health : Health D) (decoded : Audio ℚ) :
    Except (LocalError D) (CreateParams × List UInt8) := do
  checkRate args health
  let audio ← loadInput decoded health
  .ok (args.formats.query audio.sampleRate,
    toInterleaved audio (args.formats.upload = "f32le"))

omit [Seconds D] in
theorem offered_ok {α : Type} [DecidableEq α] {asked : Option α} {list : List α}
    {refusal : List α → α → LocalError D} {done : Unit}
    (passed : offered asked list refusal = .ok done) {value : α} (is : asked = some value) :
    list = [] ∨ value ∈ list := by
  subst is
  exact ensure_ok passed

omit [Seconds D] in
theorem offered_error {α : Type} [DecidableEq α] {asked : Option α} {list : List α}
    {refusal : List α → α → LocalError D} {why : LocalError D}
    (refused : offered asked list refusal = .error why) :
    ∃ value, asked = some value ∧ value ∉ list := by
  cases asked with
  | none => cases refused
  | some value =>
      have missing := (ensure_error refused).1
      exact ⟨value, rfl, fun member => missing (.inr member)⟩

theorem upload_ok {args : Args} {health : Health D} {audio : Audio ℚ} {params : CreateParams}
    {body : List UInt8} (sent : upload args health audio = .ok (params, body)) :
    (∀ rate, args.outputSampleRate = some rate →
      health.outputSampleRates = [] ∨ rate ∈ health.outputSampleRates) ∧
    (∀ mode, args.dspMode = some mode → health.dspModes = [] ∨ mode ∈ health.dspModes) ∧
    Seconds.exceeds (durationSecs audio) health.maxTrackSeconds = false ∧
    params = args.formats.query audio.sampleRate ∧
    body = toInterleaved audio (args.formats.upload = "f32le") := by
  obtain ⟨_, checked, sent⟩ := bind_ok sent
  obtain ⟨_, rate, mode⟩ := bind_ok checked
  obtain ⟨_, loaded, sent⟩ := bind_ok sent
  obtain ⟨_, short, loaded⟩ := bind_ok loaded
  cases loaded
  cases sent
  exact ⟨fun value is => offered_ok rate is, fun value is => offered_ok mode is,
    ensure_ok short, rfl, rfl⟩

end

/-! ### Texts that are numbers -/

theorem isWhitespace_of_isDigit {c : Char} (digit : c.isDigit) : isWhitespace c = false := by
  simp only [Char.isDigit, Bool.and_eq_true, decide_eq_true_eq] at digit
  obtain ⟨low, high⟩ := digit
  have low : 48 ≤ c.toNat := low
  have high : c.toNat ≤ 57 := high
  simp [isWhitespace]
  omega

theorem digits_repr {n : Nat} {c : Char} (member : c ∈ (Nat.repr n).toList) : c.isDigit := by
  rw [Nat.repr_eq_ofList_toDigits, String.toList_ofList] at member
  exact Nat.isDigit_of_mem_toDigits (by decide) (by decide) member

theorem trim_repr (n : Nat) : trim (Nat.repr n) = Nat.repr n := by
  have solid : ∀ c ∈ (Nat.repr n).toList, isWhitespace c = false :=
    fun c member => isWhitespace_of_isDigit (digits_repr member)
  have whole {l : List Char} (all : ∀ c ∈ l, isWhitespace c = false) :
      l.dropWhile isWhitespace = l := by
    cases l with
    | nil => rfl
    | cons c rest => exact List.dropWhile_cons_of_neg (by simp [all c List.mem_cons_self])
  rw [trim, whole solid, whole fun c member => solid c (List.mem_reverse.mp member),
    List.reverse_reverse, String.ofList_toList]

theorem fromStr_repr (n : Nat) : OutputRate.fromStr (Nat.repr n) =
    if n = 24000 ∨ n = 24 then some .hz24000
    else if n = 44100 then some .hz44100
    else if n = 48000 ∨ n = 48 then some .hz48000
    else if n = 96000 ∨ n = 96 then some .hz96000
    else none := by
  have number (text : String) (m : Nat) (spelled : Nat.repr m = text) :
      Nat.repr n = text ↔ n = m := by
    rw [← spelled, Nat.repr_inj]
  have other (text : String) (c : Char) (member : c ∈ text.toList) (letter : c.isDigit = false) :
      Nat.repr n = text ↔ False := by
    refine iff_false_intro ?_
    rintro rfl
    rw [digits_repr member] at letter
    cases letter
  simp only [OutputRate.fromStr, trim_repr, number "24000" 24000 (by decide),
    other "24k" 'k' (by decide) (by decide), number "24" 24 (by decide),
    number "44100" 44100 (by decide), other "44.1k" 'k' (by decide) (by decide),
    other "44.1" '.' (by decide) (by decide), number "48000" 48000 (by decide),
    other "48k" 'k' (by decide) (by decide), number "48" 48 (by decide),
    number "96000" 96000 (by decide), other "96k" 'k' (by decide) (by decide),
    number "96" 96 (by decide), false_or, or_false]

theorem parseU8_repr {n : Nat} (small : n < 256) : parseU8 (Nat.repr n) = some n := by
  have text : (Nat.repr n).toList = Nat.toDigits 10 n := by
    rw [Nat.repr_eq_ofList_toDigits, String.toList_ofList]
  have value : (Nat.toDigits 10 n).foldl (fun m c => m * 10 + (c.toNat - 48)) 0 = n := by
    have read := Nat.ofDigitChars_ten_toDigits (n := n)
    rw [Nat.ofDigitChars_eq_foldl] at read
    rw [← read]
    congr 1
    · funext m c
      rw [Nat.mul_comm]
      rfl
    · rw [read]
  unfold parseU8
  split
  · rename_i rest signed
    have plus : '+'.isDigit := digits_repr (by rw [signed]; exact List.mem_cons_self)
    cases plus
  · rw [text]
    dsimp only
    rw [value, if_pos]
    refine ⟨Nat.toDigits_ne_nil, ?_, small⟩
    exact List.all_eq_true.mpr fun c member => digits_repr (text ▸ member)

/-! ### What the server makes of it -/

def Args.rate (args : Args) (fallback : OutputRate) : OutputRate :=
  (args.outputSampleRate.bind fun rate => OutputRate.fromHz rate.toNat).getD fallback

def Args.dsp (args : Args) : DspMode :=
  (args.dspMode.bind fun mode => DspMode.tryFrom mode.toNat).getD .general

section

variable {D : Type}

theorem rate_asked {args : Args} {state : AppView D} {refusal : String → Refusal D}
    (among : ∀ rate, args.outputSampleRate = some rate →
      (Health.of state).outputSampleRates = [] ∨ rate ∈ (Health.of state).outputSampleRates) :
    chosen (args.outputSampleRate.map toString) OutputRate.fromStr refusal state.rate =
      .ok (args.rate state.rate) := by
  unfold Args.rate
  cases asked : args.outputSampleRate with
  | none => rfl
  | some rate =>
      have member := (among rate asked).resolve_left nofun
      obtain ⟨named, -, rfl⟩ := List.mem_map.mp member
      have text : toString (UInt32.ofNat named.hz) = named.display := by
        cases named <;> decide
      have hz : OutputRate.fromHz (UInt32.ofNat named.hz).toNat = some named := by
        cases named <;> decide
      simp only [Option.map_some, chosen, text, OutputRate.fromStr_display, Option.bind_some, hz]
      rfl

theorem dsp_asked {args : Args} {state : AppView D} {refusal : String → Refusal D}
    (among : ∀ mode, args.dspMode = some mode →
      (Health.of state).dspModes = [] ∨ mode ∈ (Health.of state).dspModes) :
    chosen (args.dspMode.map toString) DspMode.fromStr refusal .general = .ok args.dsp := by
  unfold Args.dsp
  cases asked : args.dspMode with
  | none => rfl
  | some mode =>
      have member := (among mode asked).resolve_left nofun
      obtain ⟨named, -, rfl⟩ := List.mem_map.mp member
      have text : toString (UInt8.ofNat named.id) = named.display := by
        cases named <;> decide
      have id : DspMode.tryFrom (UInt8.ofNat named.id).toNat = some named := by
        cases named <;> decide
      simp only [Option.map_some, chosen, text, DspMode.fromStr_display, Option.bind_some, id]
      rfl

theorem rate_read {asked : UInt32} {refusal : String → Refusal D} {state : AppView D}
    {named : OutputRate}
    (read : chosen (some (toString asked)) OutputRate.fromStr refusal state.rate = .ok named) :
    asked ∈ (Health.of state).outputSampleRates ∨ asked ∈ ([24, 48, 96] : List UInt32) := by
  have rates : (Health.of state).outputSampleRates = [24000, 44100, 48000, 96000] := rfl
  have is {w : UInt32} (same : asked.toNat = w.toNat) : asked = w :=
    UInt32.toNat_inj.mp same
  have spelled : OutputRate.fromStr (Nat.repr asked.toNat) = some named := parsed_ok read
  rw [fromStr_repr] at spelled
  rw [rates]
  split at spelled
  · rename_i same
    rcases same with hz | kHz
    · cases is (w := 24000) hz
      exact .inl (by decide)
    · cases is (w := 24) kHz
      exact .inr (by decide)
  · split at spelled
    · rename_i hz
      cases is (w := 44100) hz
      exact .inl (by decide)
    · split at spelled
      · rename_i same
        rcases same with hz | kHz
        · cases is (w := 48000) hz
          exact .inl (by decide)
        · cases is (w := 48) kHz
          exact .inr (by decide)
      · split at spelled
        · rename_i same
          rcases same with hz | kHz
          · cases is (w := 96000) hz
            exact .inl (by decide)
          · cases is (w := 96) kHz
            exact .inr (by decide)
        · cases spelled

theorem mode_read {asked : UInt8} {refusal : String → Refusal D} {state : AppView D}
    {named : DspMode}
    (read : chosen (some (toString asked)) DspMode.fromStr refusal .general = .ok named) :
    asked ∈ (Health.of state).dspModes := by
  have spelled : DspMode.fromStr (Nat.repr asked.toNat) = some named := parsed_ok read
  rw [DspMode.fromStr, trim_repr, parseU8_repr asked.toNat_lt, Option.bind_some] at spelled
  rw [DspMode.tryFrom] at spelled
  have found := List.find?_some spelled
  have same : named.id = asked.toNat := of_decide_eq_true found
  have back : UInt8.ofNat named.id = asked := by rw [same, UInt8.ofNat_toNat]
  rw [← back]
  exact List.mem_map_of_mem (by cases named <;> decide)

variable [Seconds D]

theorem formats_named (args : Args) :
    args.formats.upload = (if args.f32 then PcmFormat.f32le else .s16le).display ∧
      args.formats.download = (if args.f32 then "f32le" else "flac") ∧
      (decide (args.formats.upload = "f32le")) = args.f32 := by
  obtain ⟨f32, rate, derived, mode⟩ := args
  cases f32 <;> exact ⟨rfl, rfl, by simp [Args.formats, Formats.new, Formats.atRate,
    Formats.withDerived, Formats.withDspMode]⟩

theorem toInterleaved_length {audio : Audio ℚ} (rectangular : audio.Rectangular)
    (f32Output : Bool) : (toInterleaved audio f32Output).length = audio.frames *
      ((if f32Output then PcmFormat.f32le else .s16le).bytesPerSample * audio.channels) := by
  rw [toInterleaved_eq, Core.toInterleaved_length rectangular]

theorem toInterleaved_nil {audio : Audio ℚ} (rectangular : audio.Rectangular)
    (stereo : audio.channels = 2) (f32Output : Bool) :
    toInterleaved audio f32Output = [] ↔ audio.frames = 0 := by
  rw [← List.length_eq_zero_iff, toInterleaved_length rectangular, stereo]
  have wide := bytesPerSample_pos (if f32Output then PcmFormat.f32le else .s16le)
  constructor
  · intro zero
    rcases Nat.mul_eq_zero.mp zero with none | none <;> omega
  · intro none
    rw [none, Nat.zero_mul]

theorem trackSeconds_upload {audio : Audio ℚ} (rectangular : audio.Rectangular)
    (stereo : audio.channels = 2) (rated : audio.sampleRate ≠ 0) (formats : Formats)
    (f32Output : Bool) : (trackSeconds (toInterleaved audio f32Output).length
      (formats.query audio.sampleRate) (if f32Output then .f32le else .s16le) : D) =
        durationSecs audio := by
  have small : (2 : UInt64).toNat *
      (if f32Output then PcmFormat.f32le else .s16le).bytesPerSample < 2 ^ 64 := by
    cases f32Output <;> decide
  have wide := bytesPerSample_pos (if f32Output then PcmFormat.f32le else .s16le)
  have channels : (formats.query audio.sampleRate).channels ≠ 0 := by
    have two : (2 : UInt64) ≠ 0 := by decide
    exact two
  rw [trackSeconds_eq small channels rated, toInterleaved_length rectangular, stereo,
    durationSecs]
  congr 1
  have two : (formats.query audio.sampleRate).channels.toNat = 2 := rfl
  rw [two, Nat.mul_comm _ 2]
  exact Nat.mul_div_cancel _ (Nat.mul_pos two_pos wide)

/-- What a server makes of an upload that was held to its own limits. It has nothing to say of the
rate, the filter's name, the container or the length; what is left is a filter for another pair of
rates, and a track that nothing was decoded of. -/
theorem uploads_are_taken {state : AppView D} {args : Args} {audio : Audio ℚ}
    (rectangular : audio.Rectangular) (stereo : audio.channels = 2) {params : CreateParams}
    {body : List UInt8} (sent : upload args (Health.of state) audio = .ok (params, body)) :
    Submission.parse state params body =
      if checkDspMode args.dsp state.modelRate (args.rate state.rate) = false then
        .error (.dspMode args.dsp state.modelRate (args.rate state.rate))
      else if audio.frames = 0 then .error .emptyPayload
      else if audio.sampleRate = 0 then .error .noRate
      else .ok {
        inFormat := if args.f32 then .f32le else .s16le
        output := ⟨if args.f32 then .pcm32 else .flac, args.rate state.rate, args.includeDerived,
          args.dsp⟩
        channels := 2
        sampleRate := audio.sampleRate
        modelRate := state.modelRate } := by
  obtain ⟨rates, modes, short, query, rfl⟩ := upload_ok sent
  obtain ⟨uploaded, downloaded, float⟩ := formats_named args
  have inFormat (refusal : Refusal D) : parsed (PcmFormat.fromStr (params.format.getD "s16le"))
      refusal = .ok (if args.f32 then .f32le else .s16le) := by
    have text : params.format.getD "s16le" = args.formats.upload := by rw [query]; rfl
    rw [text, uploaded, PcmFormat.fromStr_display]
    rfl
  have outFormat (refusal : String → Refusal D) : chosen params.outputFormat StemFormat.fromStr
      refusal state.format = .ok (if args.f32 then .pcm32 else .flac) := by
    have text : params.outputFormat = some args.formats.download := by rw [query]; rfl
    rw [text, chosen, downloaded]
    cases args.f32 <;> rfl
  have outRate (refusal : String → Refusal D) : chosen params.outputSampleRate OutputRate.fromStr
      refusal state.rate = .ok (args.rate state.rate) := by rw [query]; exact rate_asked rates
  have dsp (refusal : String → Refusal D) : chosen params.dspMode DspMode.fromStr refusal
      .general = .ok args.dsp := by rw [query]; exact dsp_asked modes
  have carried : (if args.f32 then StemFormat.pcm32 else .flac).carries (args.rate state.rate) =
      true := by
    cases args.f32 <;> rfl
  have derived : params.includeDerived.getD false = args.includeDerived := by
    have asked : params.includeDerived = if args.includeDerived then some true else none := by
      rw [query]; rfl
    rw [asked]
    cases args.includeDerived <;> rfl
  have channels : params.channels = 2 := by rw [query]; rfl
  have rate : params.sampleRate = audio.sampleRate := by rw [query]; rfl
  have some : params.channels ≠ 0 := by rw [channels]; decide
  unfold Submission.parse
  simp only [inFormat, ok_bind, outFormat, outRate, dsp, float, derived]
  rw [ensure_pos carried, ← rate, ← channels]
  by_cases filter : checkDspMode args.dsp state.modelRate (args.rate state.rate) = false
  · rw [if_pos filter, ensure_neg (by simp [filter])]
    rfl
  · rw [if_neg filter, ensure_pos (by simpa using filter), ok_bind, ok_bind]
    by_cases none : audio.frames = 0
    · have empty := (toInterleaved_nil rectangular stereo args.f32).mpr none
      rw [if_pos none, ensure_neg (not_not.mpr empty)]
      rfl
    · have full : toInterleaved audio args.f32 ≠ [] :=
        fun empty => none ((toInterleaved_nil rectangular stereo _).mp empty)
      rw [if_neg none, ensure_pos full, ok_bind, ensure_pos some, ok_bind]
      by_cases silent : params.sampleRate = 0
      · rw [if_pos silent, ensure_neg (not_not.mpr silent)]
        rfl
      · have length := trackSeconds_upload (D := D) rectangular stereo (rate ▸ silent) args.formats
          args.f32
        rw [← query] at length
        have within : Seconds.exceeds (durationSecs audio) state.maxTrackSecs = false := short
        rw [if_neg silent, ensure_pos silent, ok_bind, length, ensure_pos within]
        rfl

theorem parse_read {state : AppView D} {params : CreateParams} {body : List UInt8}
    {submission : Submission} (ended : Submission.parse state params body = .ok submission) :
    (∃ rate, chosen params.outputSampleRate OutputRate.fromStr
      (fun text => .unsupportedRate (trim text) : String → Refusal D) state.rate = .ok rate) ∧
    ∃ mode, chosen params.dspMode DspMode.fromStr
      (fun text => .unknownDspMode (trim text) : String → Refusal D) .general = .ok mode := by
  obtain ⟨inFormat, -, ended⟩ := bind_ok ended
  obtain ⟨outFormat, -, ended⟩ := bind_ok ended
  obtain ⟨outRate, rate, ended⟩ := bind_ok ended
  obtain ⟨dsp, mode, -⟩ := bind_ok ended
  exact ⟨⟨outRate, rate⟩, dsp, mode⟩

/-- What the client turns away before the upload the server would have turned away after it, but
for a rate that is asked for in kHz. -/
theorem turned_away {state : AppView D} {args : Args} {audio : Audio ℚ}
    (rectangular : audio.Rectangular) (stereo : audio.channels = 2) {why : LocalError D}
    (refused : upload args (Health.of state) audio = .error why) :
    (∃ refusal, Submission.parse state (args.formats.query audio.sampleRate)
      (toInterleaved audio args.f32) = .error refusal) ∨
    ∃ rate ∈ ([24, 48, 96] : List UInt32), args.outputSampleRate = some rate := by
  refine or_iff_not_imp_left.mpr fun accepted => ?_
  obtain ⟨submission, ended⟩ : ∃ submission, Submission.parse state
      (args.formats.query audio.sampleRate) (toInterleaved audio args.f32) = .ok submission := by
    cases ended : Submission.parse state (args.formats.query audio.sampleRate)
        (toInterleaved audio args.f32) with
    | ok submission => exact ⟨submission, rfl⟩
    | error refusal => exact absurd ⟨refusal, ended⟩ accepted
  obtain ⟨⟨rate, rateRead⟩, mode, modeRead⟩ := parse_read ended
  rcases bind_error refused with early | ⟨_, -, refused⟩
  · rcases bind_error early with noRate | ⟨_, -, noMode⟩
    · obtain ⟨asked, is, absent⟩ := offered_error noRate
      have params : (args.formats.query audio.sampleRate).outputSampleRate =
          some (toString asked) := congrArg (Option.map toString) is
      rw [params] at rateRead
      exact ⟨asked, (rate_read rateRead).resolve_left absent, is⟩
    · obtain ⟨asked, is, absent⟩ := offered_error noMode
      have params : (args.formats.query audio.sampleRate).dspMode = some (toString asked) :=
        congrArg (Option.map toString) is
      rw [params] at modeRead
      exact absurd (mode_read modeRead) absent
  · rcases bind_error refused with long | ⟨_, -, refused⟩
    · obtain ⟨beyond, -⟩ | ⟨_, -, late⟩ := bind_error long |>.imp_left ensure_error
      · have checked := parse_accepted ended
        obtain ⟨uploaded, -, -⟩ := formats_named args
        have inFormat : submission.inFormat = if args.f32 then .f32le else .s16le := by
          have named : PcmFormat.fromStr args.formats.upload = some submission.inFormat :=
            checked.named
          rw [uploaded, PcmFormat.fromStr_display] at named
          exact (Option.some.inj named).symm
        have short := checked.short
        rw [inFormat, trackSeconds_upload rectangular stereo checked.rated] at short
        exact absurd short beyond
      · cases late
    · cases refused

end

def tenMinutes : AppView ℚ := ⟨.mp3, .hz44100, 44100, 600⟩

def at48k : Args := ⟨false, some 48000, false, none⟩

theorem one_frame_is_taken : Submission.parse tenMinutes (at48k.formats.query 44100)
    (toInterleaved oneFrame false) =
      .ok ⟨.s16le, ⟨.flac, .hz48000, false, .general⟩, 2, 44100, 44100⟩ := by
  have sent : upload at48k (Health.of tenMinutes) oneFrame =
      .ok (at48k.formats.query 44100, toInterleaved oneFrame false) := by
    have short : ensure (Seconds.exceeds (durationSecs oneFrame) (600 : ℚ) = false)
        (LocalError.tooLong (durationSecs oneFrame) (600 : ℚ)) = .ok () :=
      ensure_pos (by decide +kernel)
    have float : decide (at48k.formats.upload = "f32le") = false := by decide
    have loaded : loadInput oneFrame (Health.of tenMinutes) = .ok oneFrame := by
      rw [loadInput]
      exact congrArg (· >>= _) short
    rw [upload, loaded, float]
    rfl
  have rectangular : ∀ c ∈ oneFrame.data, c.length = oneFrame.frames := by decide
  exact uploads_are_taken rectangular (by decide) sent

def at22k : Args := ⟨false, some 22050, false, none⟩

theorem odd_rate_is_turned_away : ∃ refusal : Refusal ℚ, Submission.parse tenMinutes
    (at22k.formats.query 44100) (toInterleaved oneFrame false) = .error refusal := by
  have rectangular : ∀ c ∈ oneFrame.data, c.length = oneFrame.frames := by decide
  have refused : upload at22k (Health.of tenMinutes) oneFrame =
      .error (.rate [24000, 44100, 48000, 96000] 22050) := rfl
  rcases turned_away rectangular (by decide) refused with server | ⟨rate, member, asked⟩
  · exact server
  · cases asked
    exact absurd member (by decide)

end Stemd.Client
