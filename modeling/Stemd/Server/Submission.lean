import Stemd.Core.Wire
import Stemd.Semantics.Fallible
import Stemd.Server.Payload

/-! The query of an upload, and what it says of the body's geometry.

A query is refused before anything is hashed or decoded. The channel count in it is any machine
word, and is multiplied by the sample size twice: once for the gate on a track's length and once
in the decoder. Both products wrap. -/

set_option autoImplicit false

namespace Stemd.Server

open Stemd.Core
open Stemd.Semantics
open Stemd.Semantics.Framing

structure CreateParams where
  sampleRate : UInt32 := 44100
  channels : UInt64 := 2
  /-- Encoding of the uploaded body. -/
  format : Option String := none
  outputFormat : Option String := none
  outputSampleRate : Option String := none
  includeDerived : Option Bool := none
  dspMode : Option String := none

/-- Lengths in seconds, as far as the gate looks at them. -/
class Seconds (D : Type) where
  zero : D
  /-- `frames as f64 / f64::from(rate)` -/
  ratio : Nat → UInt32 → D
  exceeds : D → D → Bool

instance : Seconds ℚ where
  zero := 0
  ratio frames rate := frames / rate.toNat
  exceeds secs limit := limit < secs

/-- What a request reads of `AppState`: the settings in force, the rate of the model, and the
longest track the server takes. -/
structure AppView (D : Type) where
  format : StemFormat
  rate : OutputRate
  modelRate : UInt32
  maxTrackSecs : D

inductive Refusal (D : Type) where
  | unknownFormat (asked : String)
  | unsupportedRate (asked : String)
  | unknownDspMode (asked : String)
  | dspMode (dsp : DspMode) (modelRate : UInt32) (outRate : OutputRate)
  | notCarried (format : StemFormat) (rate : OutputRate)
  | emptyPayload
  | noChannels
  | noRate
  | tooLong (secs limit : D)
  deriving DecidableEq

section

variable {D : Type}

def Refusal.status : Refusal D → Nat
  | .tooLong _ _ => 413
  | _ => 400

/-- The text of the answer. How a string is quoted and how minutes are written is the
formatter's business. -/
def Refusal.message (quoted : String → String) (minutes : Nat → D → String) :
    Refusal D → String
  | .unknownFormat asked => s!"unknown pcm format {quoted asked}, expected s16le or f32le"
  | .unsupportedRate asked =>
      s!"unsupported output sample rate {quoted asked}, " ++
        "expected one of 24000, 44100, 48000, 96000"
  | .unknownDspMode asked =>
      s!"unknown dsp_mode {quoted asked}, expected one of " ++
        ", ".intercalate (DspMode.all.map DspMode.display)
  | .dspMode dsp modelRate outRate =>
      match dsp.onlyPair with
      | some (source, target) =>
          s!"dsp_mode {dsp.display} converts {source} to {target} Hz; " ++
            s!"this job converts {modelRate.toNat} to {outRate.hz} Hz"
      | none => ""
  | .notCarried format rate =>
      s!"{format.display} has no {rate.hz} Hz mode; it carries " ++
        ", ".intercalate (format.rates.map OutputRate.display)
  | .emptyPayload => "empty payload"
  | .noChannels => "channels must be at least 1"
  | .noRate => "sample_rate must be at least 1"
  | .tooLong secs limit =>
      s!"track is {minutes 1 secs} minutes; this server accepts up to {minutes 0 limit}"

variable [Seconds D]

def trackSeconds (bytes : Nat) (params : CreateParams) (format : PcmFormat) : D :=
  let stride := params.channels * UInt64.ofNat format.bytesPerSample
  if stride = 0 ∨ params.sampleRate = 0 then Seconds.zero
  else Seconds.ratio (bytes / stride.toNat) params.sampleRate

def chosen {α : Type} (asked : Option String) (fromStr : String → Option α)
    (refusal : String → Refusal D) (fallback : α) : Except (Refusal D) α :=
  match asked with
  | some text => parsed (fromStr text) (refusal text)
  | none => .ok fallback

structure Submission where
  inFormat : PcmFormat
  output : Output
  channels : UInt64
  sampleRate : UInt32
  modelRate : UInt32
  deriving DecidableEq

def Submission.parse (state : AppView D) (params : CreateParams) (body : Bytes) :
    Except (Refusal D) Submission := do
  let asked := params.format.getD "s16le"
  let inFormat ← parsed (PcmFormat.fromStr asked) (.unknownFormat asked)
  let outFormat ← chosen params.outputFormat StemFormat.fromStr .unknownFormat state.format
  let outRate ← chosen params.outputSampleRate OutputRate.fromStr
    (fun text => .unsupportedRate (trim text)) state.rate
  let dsp ← chosen params.dspMode DspMode.fromStr (fun text => .unknownDspMode (trim text))
    .general
  ensure (checkDspMode dsp state.modelRate outRate = true)
    (.dspMode dsp state.modelRate outRate)
  ensure (outFormat.carries outRate = true) (.notCarried outFormat outRate)
  ensure (body ≠ []) .emptyPayload
  ensure (params.channels ≠ 0) .noChannels
  ensure (params.sampleRate ≠ 0) .noRate
  -- An over-long track is refused before it is hashed or decoded.
  let secs := trackSeconds body.length params inFormat
  ensure (Seconds.exceeds secs state.maxTrackSecs = false) (.tooLong secs state.maxTrackSecs)
  .ok {
    inFormat := inFormat
    output := ⟨outFormat, outRate, params.includeDerived.getD false, dsp⟩
    channels := params.channels
    sampleRate := params.sampleRate
    modelRate := state.modelRate }

omit [Seconds D] in
theorem chosen_error {α : Type} {asked : Option String} {fromStr : String → Option α}
    {refusal : String → Refusal D} {fallback : α} {error : Refusal D}
    (ended : chosen asked fromStr refusal fallback = .error error) :
    ∃ text, error = refusal text := by
  cases asked with
  | none => cases ended
  | some text => exact ⟨text, parsed_error ended⟩

structure Accepted (state : AppView D) (params : CreateParams) (body : Bytes)
    (submission : Submission) : Prop where
  named : PcmFormat.fromStr (params.format.getD "s16le") = some submission.inFormat
  filter : checkDspMode submission.output.dsp state.modelRate submission.output.rate = true
  carried : submission.output.format.carries submission.output.rate = true
  nonempty : body ≠ []
  channelled : params.channels ≠ 0
  rated : params.sampleRate ≠ 0
  short : Seconds.exceeds (trackSeconds body.length params submission.inFormat : D)
    state.maxTrackSecs = false
  channels : submission.channels = params.channels
  sampleRate : submission.sampleRate = params.sampleRate
  modelRate : submission.modelRate = state.modelRate

theorem parse_accepted {state : AppView D} {params : CreateParams} {body : Bytes}
    {submission : Submission} (ended : Submission.parse state params body = .ok submission) :
    Accepted state params body submission := by
  obtain ⟨inFormat, named, ended⟩ := bind_ok ended
  obtain ⟨outFormat, -, ended⟩ := bind_ok ended
  obtain ⟨outRate, -, ended⟩ := bind_ok ended
  obtain ⟨dsp, -, ended⟩ := bind_ok ended
  obtain ⟨_, filter, ended⟩ := bind_ok ended
  obtain ⟨_, carried, ended⟩ := bind_ok ended
  obtain ⟨_, nonempty, ended⟩ := bind_ok ended
  obtain ⟨_, channelled, ended⟩ := bind_ok ended
  obtain ⟨_, rated, ended⟩ := bind_ok ended
  obtain ⟨_, short, ended⟩ := bind_ok ended
  cases ended
  exact ⟨parsed_ok named, ensure_ok filter, ensure_ok carried, ensure_ok nonempty,
    ensure_ok channelled, ensure_ok rated, ensure_ok short, rfl, rfl, rfl⟩

theorem parse_upload {state : AppView D} {params : CreateParams} {body : Bytes}
    {submission : Submission} (ended : Submission.parse state params body = .ok submission)
    (model : Model) (runs : state.modelRate = model.sampleRate) :
    ∃ upload : Upload model, upload.body = body ∧ upload.inFormat = submission.inFormat ∧
      upload.output = submission.output ∧ upload.channels = submission.channels ∧
      upload.sampleRate = submission.sampleRate := by
  have accepted := parse_accepted ended
  refine ⟨{
    body := body
    inFormat := submission.inFormat
    output := submission.output
    channels := submission.channels
    sampleRate := submission.sampleRate
    filter := runs ▸ accepted.filter
    carried := accepted.carried
    nonempty := accepted.nonempty
    channelled := accepted.channels ▸ accepted.channelled
    rated := accepted.sampleRate ▸ accepted.rated }, rfl, rfl, rfl, rfl, rfl⟩

/-- Only a track that has a length is refused for its length: whatever the length is divided by
was looked at before. -/
theorem parse_too_long {state : AppView D} {params : CreateParams} {body : Bytes}
    {refusal : Refusal D} (ended : Submission.parse state params body = .error refusal)
    (large : refusal.status = 413) :
    body ≠ [] ∧ params.channels ≠ 0 ∧ params.sampleRate ≠ 0 ∧
      ∃ format, PcmFormat.fromStr (params.format.getD "s16le") = some format ∧
        Seconds.exceeds (trackSeconds body.length params format : D) state.maxTrackSecs =
          true := by
  -- Every refusal before the last is a bad request.
  have bad {other : Refusal D} (status : other.status = 400) : refusal ≠ other := by
    rintro rfl
    omega
  have passed {condition : Prop} [Decidable condition] {other : Refusal D}
      (status : other.status = 400) : ensure condition other ≠ .error refusal :=
    fun early => bad status (ensure_error early).2
  have chose {α : Type} {asked : Option String} {fromStr : String → Option α}
      {other : String → Refusal D} {fallback : α} (status : ∀ text, (other text).status = 400) :
      chosen asked fromStr other fallback ≠ .error refusal := by
    intro early
    obtain ⟨text, same⟩ := chosen_error early
    exact bad (status text) same
  obtain ⟨inFormat, named, ended⟩ := bind_past (fun early => bad rfl (parsed_error early)) ended
  obtain ⟨outFormat, -, ended⟩ := bind_past (chose fun _ => rfl) ended
  obtain ⟨outRate, -, ended⟩ := bind_past (chose fun _ => rfl) ended
  obtain ⟨dsp, -, ended⟩ := bind_past (chose fun _ => rfl) ended
  obtain ⟨_, -, ended⟩ := bind_past (passed rfl) ended
  obtain ⟨_, -, ended⟩ := bind_past (passed rfl) ended
  obtain ⟨_, nonempty, ended⟩ := bind_past (passed rfl) ended
  obtain ⟨_, channelled, ended⟩ := bind_past (passed rfl) ended
  obtain ⟨_, rated, ended⟩ := bind_past (passed rfl) ended
  rcases bind_error ended with late | ⟨_, -, ended⟩
  · refine ⟨ensure_ok nonempty, ensure_ok channelled, ensure_ok rated, inFormat,
      parsed_ok named, ?_⟩
    exact Bool.eq_true_of_not_eq_false (ensure_error late).1
  · cases ended

def channelVectors (bytes : Nat) (format : PcmFormat) (channels : UInt64) : Nat :=
  let stride := (UInt64.ofNat format.bytesPerSample * channels).toNat
  if channels = 0 ∨ bytes % stride ≠ 0 ∨ stride = 0 then 0
  -- One channel's room is asked for first, and copied as often as there are channels.
  else if 4 * (bytes / stride) ≤ isizeMax then channels.toNat
  else 0

/-- Nothing that is computed from an upload's geometry wraps, and the decoder keeps to it. -/
structure Geometry (F : Type) [Sample F] (D : Type) [Seconds D] (params : CreateParams)
    (body : Bytes) (submission : Submission) : Prop where
  stride : submission.channels.toNat * submission.inFormat.bytesPerSample < 2 ^ 64
  duration : (trackSeconds body.length params submission.inFormat : D) = Seconds.ratio
    (body.length / (submission.channels.toNat * submission.inFormat.bytesPerSample))
    submission.sampleRate
  decoded :
    (∃ audio : Audio F, Audio.fromInterleavedCall body submission.inFormat submission.channels
        submission.sampleRate = .returned (.ok audio) ∧
      audio.channels = submission.channels.toNat ∧
      audio.frames * audio.channels * submission.inFormat.bytesPerSample = body.length) ∨
    Audio.fromInterleavedCall (F := F) body submission.inFormat submission.channels
      submission.sampleRate = .returned (.error (.ragged body.length submission.channels))
  vectors : channelVectors body.length submission.inFormat submission.channels ≤
    body.length / submission.inFormat.bytesPerSample

theorem stride_comm (format : PcmFormat) {channels : UInt64}
    (small : channels.toNat * format.bytesPerSample < 2 ^ 64) :
    (channels * UInt64.ofNat format.bytesPerSample).toNat =
        channels.toNat * format.bytesPerSample ∧
      (UInt64.ofNat format.bytesPerSample * channels).toNat =
        channels.toNat * format.bytesPerSample := by
  rw [Nat.mul_comm] at small
  have here := stride_eq format small
  rw [Nat.mul_comm format.bytesPerSample] at here
  exact ⟨by rwa [UInt64.mul_comm], here⟩

theorem trackSeconds_eq {bytes : Nat} {params : CreateParams} {format : PcmFormat}
    (small : params.channels.toNat * format.bytesPerSample < 2 ^ 64)
    (channelled : params.channels ≠ 0) (rated : params.sampleRate ≠ 0) :
    (trackSeconds bytes params format : D) = Seconds.ratio
      (bytes / (params.channels.toNat * format.bytesPerSample)) params.sampleRate := by
  obtain ⟨stride, -⟩ := stride_comm format small
  have positive := Nat.mul_pos (channels_pos channelled) (bytesPerSample_pos format)
  have nonzero : ¬ (params.channels * UInt64.ofNat format.bytesPerSample = 0 ∨
      params.sampleRate = 0) := by
    rintro (zero | zero)
    · rw [zero] at stride
      exact positive.ne stride
    · exact rated zero
  simp only [trackSeconds]
  rw [if_neg nonzero, stride]

theorem channelVectors_le {bytes : Nat} (nonempty : 0 < bytes) (format : PcmFormat)
    {channels : UInt64} (small : channels.toNat * format.bytesPerSample < 2 ^ 64) :
    channelVectors bytes format channels ≤ bytes / format.bytesPerSample := by
  obtain ⟨-, stride⟩ := stride_comm format small
  simp only [channelVectors, stride]
  split
  · exact Nat.zero_le _
  · rename_i whole
    obtain ⟨-, whole⟩ := not_or.mp whole
    obtain ⟨whole, -⟩ := not_or.mp whole
    split
    · rw [Nat.le_div_iff_mul_le (bytesPerSample_pos format)]
      exact Nat.le_of_dvd nonempty (Nat.dvd_of_mod_eq_zero (not_not.mp whole))
    · exact Nat.zero_le _

/-- The geometry of an accepted upload holds exactly when its stride does not wrap, and what a
body of whole frames is decoded into can be asked for. -/
theorem upload_geometry_iff (F : Type) [Sample F] {state : AppView D} {params : CreateParams}
    {body : Bytes} {submission : Submission} {format : PcmFormat}
    (named : PcmFormat.fromStr (params.format.getD "s16le") = some format)
    (ended : Submission.parse state params body = .ok submission) :
    Geometry F D params body submission ↔
      params.channels.toNat * format.bytesPerSample < 2 ^ 64 ∧
        (body.length % (params.channels.toNat * format.bytesPerSample) = 0 →
          Fits (body.length / (params.channels.toNat * format.bytesPerSample))
            params.channels.toNat) := by
  have accepted := parse_accepted ended
  obtain ⟨inFormat, output, channels, sampleRate, modelRate⟩ := submission
  cases (accepted.named.symm.trans named : some inFormat = some format)
  cases (accepted.channels : channels = params.channels)
  cases (accepted.sampleRate : sampleRate = params.sampleRate)
  constructor
  · intro geometry
    have small : params.channels.toNat * inFormat.bytesPerSample < 2 ^ 64 := geometry.stride
    refine ⟨small, fun whole => ?_⟩
    by_contra exceeds
    rw [Nat.mul_comm] at small whole exceeds
    -- Buffers that cannot be asked for end the decode in neither way the geometry allows.
    have panics := fromInterleavedCall_panics (F := F) accepted.channelled small whole exceeds
      params.sampleRate
    rcases geometry.decoded with ⟨audio, decoded, -⟩ | ragged
    · cases panics.symm.trans decoded
    · cases panics.symm.trans ragged
  · rintro ⟨small, fitting⟩
    refine ⟨small, trackSeconds_eq small accepted.channelled accepted.rated, ?_,
      channelVectors_le (List.length_pos_iff.mpr accepted.nonempty) inFormat small⟩
    have small' := small
    rw [Nat.mul_comm] at small' fitting
    -- Whole frames decode, and others are refused as ragged.
    by_cases whole : body.length % (inFormat.bytesPerSample * params.channels.toNat) = 0
    · obtain ⟨audio, found, spec⟩ := fromInterleaved_spec (F := F) inFormat accepted.channelled
        small' whole params.sampleRate
      refine .inl ⟨audio, fromInterleavedCall_ok_iff.mpr ⟨accepted.channelled, whole,
        fitting whole, found⟩, spec.count, ?_⟩
      rw [spec.frames, spec.count, Nat.mul_assoc, Nat.mul_comm params.channels.toNat]
      exact Nat.div_mul_cancel (Nat.dvd_of_mod_eq_zero whole)
    · exact .inr (fromInterleavedCall_ragged small' whole params.sampleRate)

end

def cdState : AppView ℚ := ⟨.flac, .hz44100, 44100, 600⟩

/-- A query that leaves everything out. -/
theorem default_query_geometry : Geometry F32 ℚ {} [0, 0, 0, 0]
    ⟨.s16le, ⟨.flac, .hz44100, false, .general⟩, 2, 44100, 44100⟩ := by
  have ended : Submission.parse cdState {} [0, 0, 0, 0] =
      .ok ⟨.s16le, ⟨.flac, .hz44100, false, .general⟩, 2, 44100, 44100⟩ := by decide +kernel
  have named : PcmFormat.fromStr (({} : CreateParams).format.getD "s16le") = some .s16le := by
    decide
  exact (upload_geometry_iff F32 named ended).mpr ⟨by decide, by decide⟩

/-- One channel past half of the words there are: the stride of two bytes a sample wraps to two,
one sample is a whole frame, and a vector is asked for each of `2 ^ 63 + 1` channels. -/
theorem wrapped_stride_panics :
    Submission.parse cdState { channels := 9223372036854775809 } [0, 0] =
        .ok ⟨.s16le, ⟨.flac, .hz44100, false, .general⟩, 9223372036854775809, 44100, 44100⟩ ∧
      Audio.fromInterleavedCall (F := F32) [0, 0] .s16le 9223372036854775809 44100 =
        .panicked ∧
      channelVectors 2 .s16le 9223372036854775809 = 9223372036854775809 ∧
      (trackSeconds 2 { channels := 9223372036854775809 } .s16le : ℚ) = 1 / 44100 ∧
      ¬ Geometry F32 ℚ { channels := 9223372036854775809 } [0, 0]
        ⟨.s16le, ⟨.flac, .hz44100, false, .general⟩, 9223372036854775809, 44100, 44100⟩ := by
  refine ⟨by decide +kernel, by decide +kernel, by decide +kernel, by decide +kernel, ?_⟩
  intro geometry
  exact absurd geometry.stride (by decide)

end Stemd.Server
