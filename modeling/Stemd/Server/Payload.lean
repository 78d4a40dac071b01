import Stemd.Core.Resample
import Stemd.Server.CacheKey

/-! The two ways a mix reaches the separator, and what each hashes.

An upload is hashed as received and decoded afterwards. A dropped file is decoded
first and hashed as the 16-bit payload an upload of it would have carried, while the
separator is handed the samples as decoded. The two agree exactly on samples that
survive the 16-bit codec. -/

set_option autoImplicit false

namespace Stemd.Server

open Stemd.Core
open Stemd.Semantics.Framing

structure Model where
  identity : String
  sampleRate : UInt32
  audible : sampleRate ≠ 0

def checkDspMode (dsp : DspMode) (modelRate : UInt32) (outRate : OutputRate) : Bool :=
  match dsp.onlyPair with
  | some (source, target) => modelRate.toNat = source ∧ outRate.hz = target
  | none => true

/-- A submission that passed `Submission::parse`. The limit on a track's length, which
refuses before anything is hashed, is not among the conditions. -/
structure Upload (model : Model) where
  body : Bytes
  inFormat : PcmFormat
  output : Output
  channels : UInt64
  sampleRate : UInt32
  filter : checkDspMode output.dsp model.sampleRate output.rate = true
  carried : output.format.carries output.rate = true
  nonempty : body ≠ []
  channelled : channels ≠ 0
  rated : sampleRate ≠ 0

/-- A file as `stemd_audio::decode` hands it over, with the settings in force. -/
structure DroppedFile (F : Type) where
  decoded : Audio F
  format : StemFormat
  rate : OutputRate
  carried : format.carries rate = true
  stereo : decoded.channels = 2
  heard : decoded.frames ≠ 0

inductive MixError where
  | payload (error : PcmError)
  | converting (source : UInt32) (error : RateError)
  | resampling (error : RateError)
  deriving DecidableEq, Repr

variable {F : Type} [Sample F]

/-- The body of `decode_upload`'s task. -/
def decodeUpload (resampler : Resampler F) (modelRate : UInt32) (body : Bytes)
    (inFormat : PcmFormat) (channels : UInt64) (sampleRate : UInt32) :
    Except MixError (Audio F) :=
  match Audio.fromInterleaved body inFormat channels sampleRate with
  | .error error => .error (.payload error)
  | .ok audio =>
      if audio.sampleRate = modelRate then .ok audio
      else match toRate resampler audio modelRate with
        | .error error => .error (.converting audio.sampleRate error)
        | .ok converted => .ok converted

def read (resampler : Resampler F) (wanted : UInt32) (decoded : Audio F) :
    Except MixError (Audio F) :=
  match Audio.checked decoded.data decoded.sampleRate with
  | .error error => .error (.payload error)
  | .ok audio =>
      if audio.sampleRate = wanted then .ok audio
      else match toRate resampler audio wanted with
        | .error error => .error (.resampling error)
        | .ok converted => .ok converted

def Upload.ingredients {model : Model} (upload : Upload model) : Ingredients where
  pcm := upload.body
  sampleRate := upload.sampleRate
  channels := upload.channels
  inFormat := upload.inFormat
  outFormat := upload.output.format
  outRate := upload.output.rate
  includeDerived := upload.output.derived
  dsp := upload.output.dsp
  model := model.identity

def DroppedFile.output (file : DroppedFile F) : Output where
  format := file.format
  rate := file.rate
  derived := true
  dsp := .general

def DroppedFile.ingredients (model : Model) (file : DroppedFile F) (mix : Audio F) :
    Ingredients where
  pcm := mix.toInterleaved .s16le
  sampleRate := mix.sampleRate
  channels := UInt64.ofNat mix.channels
  inFormat := .s16le
  outFormat := file.output.format
  outRate := file.output.rate
  includeDerived := file.output.derived
  dsp := file.output.dsp
  model := model.identity

inductive Request (F : Type) (model : Model) where
  | upload (sent : Upload model)
  | drop (file : DroppedFile F)

variable {model : Model}

def Request.mix (resampler : Resampler F) : Request F model → Except MixError (Audio F)
  | .upload sent => decodeUpload resampler model.sampleRate sent.body sent.inFormat
      sent.channels sent.sampleRate
  | .drop file => read resampler model.sampleRate file.decoded

def Request.output : Request F model → Output
  | .upload sent => sent.output
  | .drop file => file.output

/-- What is hashed. A file that cannot be read is never hashed. -/
def Request.ingredients (resampler : Resampler F) :
    Request F model → Except MixError Ingredients
  | .upload sent => .ok sent.ingredients
  | .drop file => (read resampler model.sampleRate file.decoded).map (file.ingredients model)

def Request.Admitted (admits : DroppedFile F → Prop) : Request F model → Prop
  | .upload _ => True
  | .drop file => admits file

/-- Requests filed under one key, for one model, give the separator the same work. -/
def HitIsMiss (sha256 : Bytes → Bytes) (resampler : Resampler F) (model : Model)
    (admits : DroppedFile F → Prop) : Prop :=
  ∀ left right : Request F model, left.Admitted admits → right.Admitted admits →
    ∀ hashed hashed', left.ingredients resampler = .ok hashed →
      right.ingredients resampler = .ok hashed' → NoCollision sha256 hashed hashed' →
        key sha256 hashed = key sha256 hashed' →
          left.mix resampler = right.mix resampler ∧ left.output = right.output

def SixteenBit (mix : Audio F) : Prop := ∀ c ∈ mix.data, ∀ v ∈ c, throughS16 v = v

omit [Sample F] in
theorem checked_eq_ok {data : List (List F)} {sampleRate : UInt32} {audio : Audio F}
    (accepted : Audio.checked data sampleRate = .ok audio) :
    audio = ⟨data, sampleRate⟩ ∧ audio.Rectangular := by
  simp only [Audio.checked] at accepted
  split at accepted
  · cases accepted
  · rename_i none
    cases accepted
    refine ⟨rfl, fun c member => ?_⟩
    obtain ⟨i, bound, at_i⟩ := List.getElem_of_mem member
    have pair : (c, i) ∈ data.zipIdx := by
      rw [List.mk_mem_zipIdx_iff_getElem?, List.getElem?_eq_some_iff]
      exact ⟨bound, at_i⟩
    simpa using List.find?_eq_none.mp none _ pair

omit [Sample F] in
/-- What a dropped file is once read: two equally long channels at the model's rate. -/
theorem read_shape {resampler : Resampler F} {file : DroppedFile F} {mix : Audio F}
    (done : read resampler model.sampleRate file.decoded = .ok mix) :
    mix.Rectangular ∧ mix.channels = 2 ∧ mix.sampleRate = model.sampleRate := by
  simp only [read] at done
  split at done
  · cases done
  · rename_i audio accepted
    obtain ⟨rfl, rectangular⟩ := checked_eq_ok accepted
    split at done
    · rename_i native
      cases done
      exact ⟨rectangular, file.stereo, native⟩
    split at done
    · cases done
    · rename_i converted conversion
      cases done
      obtain ⟨shape, channels, rate⟩ := toRate_shape rectangular conversion
      exact ⟨shape, channels.trans file.stereo, rate.resolve_right file.heard⟩

def Ingredients.decode (resampler : Resampler F) (model : Model) (hashed : Ingredients) :
    Except MixError (Audio F) :=
  decodeUpload resampler model.sampleRate hashed.pcm hashed.inFormat hashed.channels
    hashed.sampleRate

theorem decode_drop_ingredients {resampler : Resampler F} {file : DroppedFile F} {mix : Audio F}
    (done : read resampler model.sampleRate file.decoded = .ok mix) :
    (file.ingredients model mix).decode resampler model = .ok (mix.mapSamples throughS16) := by
  obtain ⟨rectangular, channels, rate⟩ := read_shape done
  have trip := Audio.fromInterleaved_toInterleaved_s16 rectangular
    (UInt64.ofNat mix.channels) (by rw [channels]; rfl) (by omega) (by omega)
  simp only [Ingredients.decode, DroppedFile.ingredients, decodeUpload, trip]
  exact if_pos rate

theorem drop_ingredients {resampler : Resampler F} {file : DroppedFile F} {hashed : Ingredients}
    (known : (Request.drop file : Request F model).ingredients resampler = .ok hashed) :
    ∃ mix, read resampler model.sampleRate file.decoded = .ok mix ∧
      hashed = file.ingredients model mix := by
  simp only [Request.ingredients] at known
  cases done : read resampler model.sampleRate file.decoded with
  | error error =>
      rw [done] at known
      cases known
  | ok mix =>
      rw [done] at known
      exact ⟨mix, rfl, (Except.ok.inj known).symm⟩

theorem mix_eq_decode {resampler : Resampler F} {request : Request F model}
    {hashed : Ingredients} (sound : ∀ file, request = .drop file → ∀ mix,
      read resampler model.sampleRate file.decoded = .ok mix → SixteenBit mix)
    (known : request.ingredients resampler = .ok hashed) :
    request.mix resampler = hashed.decode resampler model := by
  cases request with
  | upload sent =>
      cases known
      rfl
  | drop file =>
      obtain ⟨mix, done, rfl⟩ := drop_ingredients known
      rw [decode_drop_ingredients done,
        (Audio.mapSamples_eq_self_iff mix throughS16).mpr (sound file rfl mix done)]
      exact done

theorem output_eq {resampler : Resampler F} {request : Request F model} {hashed : Ingredients}
    (known : request.ingredients resampler = .ok hashed) :
    request.output =
      ⟨hashed.outFormat, hashed.outRate, hashed.includeDerived, hashed.dsp⟩ ∧
        hashed.model = model.identity := by
  cases request with
  | upload sent =>
      cases known
      exact ⟨rfl, rfl⟩
  | drop file =>
      obtain ⟨mix, -, rfl⟩ := drop_ingredients known
      exact ⟨rfl, rfl⟩

def DroppedFile.asUpload (model : Model) (file : DroppedFile F) (mix : Audio F)
    (nonempty : mix.toInterleaved .s16le ≠ []) : Upload model where
  body := mix.toInterleaved .s16le
  inFormat := .s16le
  output := file.output
  channels := 2
  sampleRate := model.sampleRate
  filter := rfl
  carried := file.carried
  nonempty := nonempty
  channelled := by decide
  rated := model.audible

theorem toInterleaved_ne_nil {mix : Audio F} (rectangular : mix.Rectangular)
    (channels : mix.channels = 2) (frames : mix.frames ≠ 0) :
    mix.toInterleaved .s16le ≠ [] := by
  intro empty
  have row : (mix.frame 0).flatMap
      (fun v => encodeSample .s16le (Sample.mul v Sample.one)) = [] :=
    List.flatMap_eq_nil_iff.mp empty 0 (List.mem_range.mpr (Nat.pos_of_ne_zero frames))
  have length := Audio.frame_length rectangular (Nat.pos_of_ne_zero frames)
  cases first : mix.frame 0 with
  | nil => simp [first, channels] at length
  | cons v rest =>
      simp [first, encodeSample, leBytes] at row

/-- A hit is the bytes a miss would have produced exactly when every dropped file in
play decodes, at the model's rate, to samples that survive the 16-bit codec. -/
theorem hit_is_miss_iff (sha256 : Bytes → Bytes) (resampler : Resampler F) (model : Model)
    (admits : DroppedFile F → Prop) :
    HitIsMiss sha256 resampler model admits ↔
      ∀ file, admits file → ∀ mix,
        read resampler model.sampleRate file.decoded = .ok mix → SixteenBit mix := by
  constructor
  -- The upload a drop hashes as is a request of its own, so a hit hands its mix to the drop.
  · intro hit file admitted mix done
    obtain ⟨rectangular, channels, rate⟩ := read_shape done
    by_cases silent : mix.frames = 0
    · intro c member v sample
      have empty : c.length = 0 := (rectangular c member).trans silent
      rw [List.length_eq_zero_iff.mp empty] at sample
      cases sample
    have nonempty := toInterleaved_ne_nil rectangular channels silent
    have same : (file.asUpload model mix nonempty).ingredients = file.ingredients model mix := by
      simp [Upload.ingredients, DroppedFile.ingredients, DroppedFile.asUpload, rate, channels]
    have agree := hit (.drop file) (.upload (file.asUpload model mix nonempty)) admitted trivial
      (file.ingredients model mix) (file.ingredients model mix)
      (by simp only [Request.ingredients, done]; rfl)
      (by simp only [Request.ingredients, same])
      (fun _ => rfl) rfl
    have decoded : Request.mix resampler (.upload (file.asUpload model mix nonempty)) =
        .ok (mix.mapSamples throughS16) := by
      rw [← decode_drop_ingredients done, ← same]
      rfl
    rw [decoded, Request.mix, done] at agree
    exact (Audio.mapSamples_eq_self_iff mix throughS16).mp (Except.ok.inj agree.1).symm
  -- What was hashed decides the mix, whichever path hashed it.
  · intro sound left right admitted admitted' hashed hashed' known known' apart same
    obtain ⟨output, named⟩ := output_eq known
    obtain ⟨output', named'⟩ := output_eq known'
    have equal : hashed = hashed' := eq_of_key_eq (named.trans named'.symm) apart same
    subst equal
    refine ⟨?_, output.trans output'.symm⟩
    rw [mix_eq_decode (fun file is => sound file (by subst is; exact admitted)) known,
      mix_eq_decode (fun file is => sound file (by subst is; exact admitted')) known']

def cdModel : Model := ⟨"m=custom:demo;p=fp32;o=0.25", 44100, by decide⟩

def unusedResampler : Resampler F32 := fun _ _ _ => none

/-- One stereo frame `2 ^ -20` above half scale, which a 24-bit file can hold. -/
def halfFile : DroppedFile F32 where
  decoded := ⟨[[F32.encode false (2 ^ 19 + 1) (-20)], [F32.encode false (2 ^ 19 + 1) (-20)]], 44100⟩
  format := .flac
  rate := .hz44100
  carried := rfl
  stereo := rfl
  heard := by decide

def halfUpload : Upload cdModel where
  body := [0x00, 0x40, 0x00, 0x40]
  inFormat := .s16le
  output := ⟨.flac, .hz44100, true, .general⟩
  channels := 2
  sampleRate := 44100
  filter := rfl
  carried := rfl
  nonempty := by decide
  channelled := by decide
  rated := by decide

/-- The two hash alike, so under any digest the file is answered with stems of samples
it does not hold. -/
theorem half_file_hits_half_upload :
    (Request.drop halfFile : Request F32 cdModel).ingredients unusedResampler =
        (Request.upload halfUpload : Request F32 cdModel).ingredients unusedResampler ∧
      (Request.drop halfFile : Request F32 cdModel).mix unusedResampler ≠
        (Request.upload halfUpload : Request F32 cdModel).mix unusedResampler ∧
      ¬ HitIsMiss (fun bytes => bytes) unusedResampler cdModel fun _ : DroppedFile F32 => True := by
  have hashed : (Request.drop halfFile : Request F32 cdModel).ingredients unusedResampler =
      .ok halfUpload.ingredients := by
    have known : read unusedResampler cdModel.sampleRate halfFile.decoded =
        .ok halfFile.decoded := by decide
    have same : halfFile.ingredients cdModel halfFile.decoded = halfUpload.ingredients := by
      decide
    simp only [Request.ingredients, known, Except.map, same]
  have apart : (Request.drop halfFile : Request F32 cdModel).mix unusedResampler ≠
      (Request.upload halfUpload : Request F32 cdModel).mix unusedResampler := by decide
  refine ⟨hashed, apart, fun hit => apart ?_⟩
  exact (hit (.drop halfFile) (.upload halfUpload) trivial trivial _ _ hashed rfl
    (fun same => same) rfl).1

end Stemd.Server
