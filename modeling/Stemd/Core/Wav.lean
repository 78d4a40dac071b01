import Stemd.Core.Wire

/-! WAV stems, and what a reader makes of them.

A file is a header of forty-four bytes and the samples a 16-bit payload would carry. The header
keeps its counts in fields of two and four bytes and the arithmetic that fills them wraps, so
what a file says of itself is true as long as nothing had to be narrowed. -/

set_option autoImplicit false

namespace Stemd.Core

/-! ## Reading -/

def riffId : List UInt8 := [0x52, 0x49, 0x46, 0x46]

def waveId : List UInt8 := [0x57, 0x41, 0x56, 0x45]

def fmtId : List UInt8 := [0x66, 0x6d, 0x74, 0x20]

def dataId : List UInt8 := [0x64, 0x61, 0x74, 0x61]

def field (bytes : List UInt8) (offset width : Nat) : Nat :=
  leValue ((bytes.drop offset).take width)

structure Chunk where
  id : List UInt8
  size : Nat
  data : List UInt8
  deriving DecidableEq

/-- Chunk after chunk, each padded to an even length. -/
def readChunks : Nat → List UInt8 → List Chunk
  | 0, _ => []
  | fuel + 1, bytes =>
      if bytes.length < 8 then []
      else
        let size := field bytes 4 4
        let rest := bytes.drop 8
        ⟨bytes.take 4, size, rest.take size⟩ :: readChunks fuel (rest.drop (size + size % 2))

structure Wav where
  riffSize : Nat
  tag : Nat
  channels : Nat
  sampleRate : Nat
  byteRate : Nat
  blockAlign : Nat
  bits : Nat
  dataSize : Nat
  data : List UInt8
  deriving DecidableEq

/-- A file read by the rules: one RIFF form of type WAVE, in it a format and the samples. -/
def readWav (file : List UInt8) : Option Wav :=
  let riffSize := field file 4 4
  let form := (file.drop 8).take riffSize
  if file.take 4 = riffId ∧ form.take 4 = waveId then do
    let chunks := readChunks file.length (form.drop 4)
    let format ← chunks.find? (·.id = fmtId)
    let data ← chunks.find? (·.id = dataId)
    if format.data.length < 16 then none
    else some {
      riffSize := riffSize
      tag := field format.data 0 2
      channels := field format.data 2 2
      sampleRate := field format.data 4 4
      byteRate := field format.data 8 4
      blockAlign := field format.data 12 2
      bits := field format.data 14 2
      dataSize := data.size
      data := data.data }
  else none

/-! ## Writing -/

section

variable {F : Type} [Sample F]

/-- `channels * WAV_BITS / 8` -/
def wavBlockAlign (audio : Audio F) : UInt16 := UInt16.ofNat audio.channels * 16 / 8

def wavByteRate (audio : Audio F) : UInt32 := audio.sampleRate * (wavBlockAlign audio).toUInt32

def wavFile (audio : Audio F) (samples : List UInt8) : List UInt8 :=
  riffId ++ leBytes 4 (36 + UInt32.ofNat samples.length).toNat ++ (waveId ++ fmtId) ++
    leBytes 4 16 ++ leBytes 2 1 ++ leBytes 2 (UInt16.ofNat audio.channels).toNat ++
    leBytes 4 audio.sampleRate.toNat ++ leBytes 4 (wavByteRate audio).toNat ++
    leBytes 2 (wavBlockAlign audio).toNat ++ leBytes 2 16 ++ dataId ++
    leBytes 4 (UInt32.ofNat samples.length).toNat ++ samples

def toWav (audio : Audio F) (gain : F) : Call (List UInt8) :=
  match audio.toInterleavedScaledCall .s16le gain with
  | .panicked => .panicked
  | .returned samples =>
      if 44 + samples.length ≤ isizeMax then .returned (wavFile audio samples) else .panicked

structure Encoders (F : Type) where
  flac : Audio F → F → Call (Except String (List UInt8))
  mp3 : Audio F → F → Call (Except String (List UInt8))

def Call.map {α β : Type} (f : α → β) : Call α → Call β
  | .returned value => .returned (f value)
  | .panicked => .panicked

def encode (encoders : Encoders F) (audio : Audio F) (format : StemFormat) (gain : F) :
    Call (Except String (List UInt8)) :=
  match format with
  | .pcm16 => (audio.toInterleavedScaledCall .s16le gain).map .ok
  | .pcm32 => (audio.toInterleavedScaledCall .f32le gain).map .ok
  | .flac => encoders.flac audio gain
  | .wav => (toWav audio gain).map .ok
  | .mp3 => encoders.mp3 audio gain

def Lossless (encoders : Encoders F) (audio : Audio F) (gain : F) (file : List UInt8) : Prop :=
  ∃ wav samples, readWav file = some wav ∧
    encode encoders audio .pcm16 gain = .returned (.ok samples) ∧
    wav.riffSize = (file.drop 8).length ∧ wav.tag = 1 ∧ wav.bits = 16 ∧
    wav.channels = audio.channels ∧ wav.sampleRate = audio.sampleRate.toNat ∧
    wav.blockAlign = 2 * audio.channels ∧
    wav.byteRate = audio.sampleRate.toNat * (2 * audio.channels) ∧
    wav.dataSize = samples.length ∧ wav.data = samples

/-! ## The two together -/

theorem field_at {front rest : List UInt8} {offset width n : Nat}
    (here : front.length = offset) :
    field (front ++ (leBytes width n ++ rest)) offset width = n % 256 ^ width := by
  rw [field, ← here, List.drop_left, List.take_left' (leBytes_length width n), leValue_leBytes]

theorem readChunks_chunk (fuel : Nat) {id data : List UInt8} (named : id.length = 4)
    (small : data.length < 2 ^ 32) (even : data.length % 2 = 0) (rest : List UInt8) :
    readChunks (fuel + 1) (id ++ (leBytes 4 data.length ++ (data ++ rest))) =
      ⟨id, data.length, data⟩ :: readChunks fuel rest := by
  have size : field (id ++ (leBytes 4 data.length ++ (data ++ rest))) 4 4 = data.length := by
    rw [field_at named]
    exact Nat.mod_eq_of_lt small
  have long : ¬ (id ++ (leBytes 4 data.length ++ (data ++ rest))).length < 8 := by
    simp only [List.length_append, leBytes_length, named]
    omega
  have header : (id ++ leBytes 4 data.length).length = 8 := by simp [named]
  have behind : (id ++ (leBytes 4 data.length ++ (data ++ rest))).drop 8 = data ++ rest := by
    rw [← List.append_assoc, List.drop_left' header]
  simp only [readChunks]
  rw [if_neg long, size, behind, even, Nat.add_zero, List.take_left' named, List.take_left,
    List.drop_left]

theorem readChunks_nil (fuel : Nat) : readChunks fuel [] = [] := by
  cases fuel <;> rfl

omit [Sample F] in
theorem wavFile_length (audio : Audio F) (samples : List UInt8) :
    (wavFile audio samples).length = 44 + samples.length := by
  simp only [wavFile, List.length_append, leBytes_length, riffId, waveId, fmtId, dataId,
    List.length_cons, List.length_nil]

def fmtBody (audio : Audio F) : List UInt8 :=
  leBytes 2 1 ++ leBytes 2 (UInt16.ofNat audio.channels).toNat ++
    leBytes 4 audio.sampleRate.toNat ++ leBytes 4 (wavByteRate audio).toNat ++
    leBytes 2 (wavBlockAlign audio).toNat ++ leBytes 2 16

omit [Sample F] in
theorem wavFile_form (audio : Audio F) (samples : List UInt8) :
    (wavFile audio samples).drop 8 = waveId ++ (fmtId ++ (leBytes 4 (fmtBody audio).length ++
      (fmtBody audio ++ (dataId ++ (leBytes 4 (UInt32.ofNat samples.length).toNat ++
        samples))))) := rfl

omit [Sample F] in
theorem wavFile_riffSize (audio : Audio F) (samples : List UInt8) :
    field (wavFile audio samples) 4 4 = (36 + samples.length) % 2 ^ 32 := by
  have stated : field (wavFile audio samples) 4 4 =
      (36 + UInt32.ofNat samples.length).toNat % 256 ^ 4 := leValue_leBytes 4 _
  rw [stated, UInt32.toNat_add, UInt32.toNat_ofNat']
  simp

omit [Sample F] in
theorem wavFile_dataSize (audio : Audio F) (samples : List UInt8) :
    field (wavFile audio samples) 40 4 = samples.length % 2 ^ 32 := by
  have stated : field (wavFile audio samples) 40 4 =
      (UInt32.ofNat samples.length).toNat % 256 ^ 4 := leValue_leBytes 4 _
  rw [stated, UInt32.toNat_ofNat']
  simp

omit [Sample F] in
theorem readWav_wavFile (audio : Audio F) {samples : List UInt8}
    (small : 36 + samples.length < 2 ^ 32) (even : samples.length % 2 = 0) :
    readWav (wavFile audio samples) = some {
      riffSize := 36 + samples.length
      tag := 1
      channels := audio.channels % 65536
      sampleRate := audio.sampleRate.toNat
      byteRate := (wavByteRate audio).toNat
      blockAlign := (wavBlockAlign audio).toNat
      bits := 16
      dataSize := samples.length
      data := samples } := by
  have stated := wavFile_riffSize audio samples
  rw [Nat.mod_eq_of_lt small] at stated
  -- The form is everything behind the size.
  have whole : ((wavFile audio samples).drop 8).take (36 + samples.length) =
      (wavFile audio samples).drop 8 := by
    apply List.take_of_length_le
    rw [List.length_drop, wavFile_length]
    omega
  have size : (UInt32.ofNat samples.length).toNat = samples.length := by
    rw [UInt32.toNat_ofNat']
    exact Nat.mod_eq_of_lt (by omega)
  have form := wavFile_form audio samples
  rw [size] at form
  have chunks : readChunks (wavFile audio samples).length
      (((wavFile audio samples).drop 8).drop 4) =
      [⟨fmtId, 16, fmtBody audio⟩, ⟨dataId, samples.length, samples⟩] := by
    -- Two chunks take two turns of the reader, and a file has bytes for more.
    have fuel : (wavFile audio samples).length = 42 + samples.length + 1 + 1 := by
      rw [wavFile_length]
      omega
    have sixteen : (fmtBody audio).length = 16 := rfl
    have last := readChunks_chunk (42 + samples.length)
      (show dataId.length = 4 from rfl) (by omega : samples.length < 2 ^ 32) even []
    rw [List.append_nil, readChunks_nil] at last
    rw [fuel, form, List.drop_left' (show waveId.length = 4 from rfl),
      readChunks_chunk _ (show fmtId.length = 4 from rfl)
        (by omega : (fmtBody audio).length < 2 ^ 32) (by omega), last, sixteen]
  have named : (wavFile audio samples).take 4 = riffId ∧
      ((wavFile audio samples).drop 8).take 4 = waveId := ⟨rfl, rfl⟩
  simp only [readWav]
  rw [stated, whole, if_pos named, chunks]
  have format : ([⟨fmtId, 16, fmtBody audio⟩, ⟨dataId, samples.length, samples⟩] :
      List Chunk).find? (·.id = fmtId) = some ⟨fmtId, 16, fmtBody audio⟩ := rfl
  have data : ([⟨fmtId, 16, fmtBody audio⟩, ⟨dataId, samples.length, samples⟩] :
      List Chunk).find? (·.id = dataId) = some ⟨dataId, samples.length, samples⟩ := rfl
  have tag : field (fmtBody audio) 0 2 = 1 := leValue_leBytes 2 1
  have channels : field (fmtBody audio) 2 2 = audio.channels % 65536 := by
    have read : field (fmtBody audio) 2 2 = (UInt16.ofNat audio.channels).toNat % 256 ^ 2 :=
      leValue_leBytes 2 _
    rw [read, UInt16.toNat_ofNat']
    simp
  have rate : field (fmtBody audio) 4 4 = audio.sampleRate.toNat :=
    (leValue_leBytes 4 _).trans (Nat.mod_eq_of_lt audio.sampleRate.toNat_lt)
  have byteRate : field (fmtBody audio) 8 4 = (wavByteRate audio).toNat :=
    (leValue_leBytes 4 _).trans (Nat.mod_eq_of_lt (wavByteRate audio).toNat_lt)
  have blockAlign : field (fmtBody audio) 12 2 = (wavBlockAlign audio).toNat :=
    (leValue_leBytes 2 _).trans (Nat.mod_eq_of_lt (wavBlockAlign audio).toNat_lt)
  have bits : field (fmtBody audio) 14 2 = 16 := leValue_leBytes 2 16
  have room : ¬ (fmtBody audio).length < 16 := Nat.lt_irrefl 16
  simp only [format, data, bind, Option.bind, if_neg room, tag, channels, rate, byteRate,
    blockAlign, bits]

theorem readWav_riffSize {file : List UInt8} {wav : Wav} (read : readWav file = some wav) :
    wav.riffSize = field file 4 4 := by
  simp only [readWav] at read
  split at read
  · simp only [bind, Option.bind_eq_some_iff] at read
    obtain ⟨format, -, data, -, filled⟩ := read
    split at filled
    · cases filled
    · cases filled
      rfl
  · cases read

omit [Sample F] in
theorem wavBlockAlign_toNat (audio : Audio F) :
    (wavBlockAlign audio).toNat = audio.channels % 65536 * 16 % 65536 / 8 := by
  rw [wavBlockAlign, UInt16.toNat_div, UInt16.toNat_mul, UInt16.toNat_ofNat']
  rfl

omit [Sample F] in
/-- Twice the channels, until sixteen times as many no longer fit two bytes. -/
theorem wavBlockAlign_eq_iff {audio : Audio F} (counted : audio.channels % 65536 = audio.channels) :
    (wavBlockAlign audio).toNat = 2 * audio.channels ↔ audio.channels ≤ 4095 := by
  rw [wavBlockAlign_toNat, counted]
  constructor <;> intro _ <;> omega

omit [Sample F] in
theorem wavByteRate_toNat (audio : Audio F) : (wavByteRate audio).toNat =
    audio.sampleRate.toNat * (wavBlockAlign audio).toNat % 2 ^ 32 := by
  rw [wavByteRate, UInt32.toNat_mul, UInt16.toNat_toUInt32]

theorem encode_wav {encoders : Encoders F} {audio : Audio F} {gain : F} {file : List UInt8}
    (accepted : encode encoders audio .wav gain = .returned (.ok file)) :
    ∃ samples, file = wavFile audio samples ∧
      encode encoders audio .pcm16 gain = .returned (.ok samples) ∧
      samples.length = audio.frames * (2 * audio.channels) := by
  simp only [encode, toWav] at accepted ⊢
  cases written : audio.toInterleavedScaledCall .s16le gain with
  | panicked =>
      rw [written] at accepted
      cases accepted
  | returned samples =>
      rw [written] at accepted
      dsimp only at accepted
      split at accepted
      · cases accepted
        exact ⟨samples, rfl, rfl, (toInterleavedScaledCall_returned written).2⟩
      · cases accepted

/-- A WAV is accepted whatever its header will say. -/
theorem encode_wav_accepted (encoders : Encoders F) {audio : Audio F}
    (reach : ∀ c ∈ audio.data, audio.frames ≤ c.length)
    (held : 44 + audio.frames * (2 * audio.channels) ≤ isizeMax) (gain : F) :
    encode encoders audio .wav gain =
      .returned (.ok (wavFile audio (audio.toInterleavedScaled .s16le gain))) := by
  have length : (audio.toInterleavedScaled .s16le gain).length =
      audio.frames * (2 * audio.channels) :=
      Audio.toInterleavedScaled_length reach .s16le gain
  have read : ¬ ∃ c ∈ audio.data, c.length < audio.frames := by
    rintro ⟨c, member, short⟩
    exact absurd (reach c member) (Nat.not_le_of_lt short)
  have written : audio.toInterleavedScaledCall .s16le gain =
      .returned (audio.toInterleavedScaled .s16le gain) := by
    rw [Audio.toInterleavedScaledCall, if_neg read, length, if_pos (by omega)]
  simp only [encode, toWav, written, length, if_pos held, Call.map]

/-- A WAV tells the truth about itself exactly when its block alignment fits two bytes and its
byte rate and sizes four. -/
theorem wav_lossless_iff (encoders : Encoders F) {audio : Audio F} {gain : F}
    {file : List UInt8} (accepted : encode encoders audio .wav gain = .returned (.ok file)) :
    Lossless encoders audio gain file ↔
      audio.channels ≤ 4095 ∧ audio.sampleRate.toNat * (2 * audio.channels) < 2 ^ 32 ∧
        36 + audio.frames * (2 * audio.channels) < 2 ^ 32 := by
  obtain ⟨samples, rfl, plain, length⟩ := encode_wav accepted
  have even : samples.length % 2 = 0 := by
    rw [length, Nat.mul_left_comm]
    exact Nat.mul_mod_right 2 _
  have behind : ((wavFile audio samples).drop 8).length = 36 + samples.length := by
    rw [List.length_drop, wavFile_length]
    omega
  rw [← length]
  constructor
  · rintro ⟨wav, samples', read, -, riff, -, -, channels, rate, align, byteRate, -, -⟩
    -- A narrowed RIFF size cannot be the length of what follows.
    have small : 36 + samples.length < 2 ^ 32 := by
      rw [readWav_riffSize read, wavFile_riffSize, behind] at riff
      rw [← riff]
      exact Nat.mod_lt _ (by decide)
    cases (readWav_wavFile audio small even).symm.trans read
    -- From here on the sizes are true, and the reader finds what was written.
    have few := (wavBlockAlign_eq_iff channels).mp align
    refine ⟨few, ?_, small⟩
    have carried : (wavByteRate audio).toNat = audio.sampleRate.toNat * (2 * audio.channels) :=
      byteRate
    rw [← carried]
    exact (wavByteRate audio).toNat_lt
  · rintro ⟨few, slow, small⟩
    have channels : audio.channels % 65536 = audio.channels := Nat.mod_eq_of_lt (by omega)
    have align := (wavBlockAlign_eq_iff channels).mpr few
    refine ⟨_, samples, readWav_wavFile audio small even, plain, behind.symm, rfl, rfl, channels,
      rfl, align, ?_, rfl, rfl⟩
    dsimp only
    rw [wavByteRate_toNat, align, Nat.mod_eq_of_lt slow]

def noEncoders : Encoders F where
  flac _ _ := .returned (.error "flac encoder unavailable")
  mp3 _ _ := .returned (.error "mp3 encoder unavailable")

end

def oneFrame : Audio Word := ⟨[[⟨0x1234⟩], [⟨0x5678⟩]], 44100⟩

theorem one_frame_lossless :
    Lossless noEncoders oneFrame ⟨1⟩ (wavFile oneFrame [0x34, 0x12, 0x78, 0x56]) :=
  (wav_lossless_iff noEncoders (by decide)).mpr ⟨by decide, by decide, by decide⟩

def silence (frames : Nat) : Audio F32 :=
  ⟨[List.replicate frames 0, List.replicate frames 0], 96000⟩

theorem silence_frames (frames : Nat) : (silence frames).frames = frames :=
  List.length_replicate

theorem silence_reach (frames : Nat) :
    ∀ c ∈ (silence frames).data, (silence frames).frames ≤ c.length := by
  intro c member
  rw [silence_frames]
  rcases List.mem_pair.mp member with rfl | rfl <;> exact List.length_replicate.ge

/-- Three hours and seven minutes are `2 ^ 32` bytes of samples, and say that they are none. -/
theorem long_silence_cut :
    ∃ file, encode noEncoders (silence (2 ^ 30)) .wav Sample.one = .returned (.ok file) ∧
      field file 40 4 = 0 ∧ ¬ Lossless noEncoders (silence (2 ^ 30)) Sample.one file := by
  have accepted := encode_wav_accepted noEncoders (silence_reach (2 ^ 30))
    (by rw [silence_frames]; decide) Sample.one
  obtain ⟨samples, same, -, length⟩ := encode_wav accepted
  rw [silence_frames] at length
  have length : samples.length = 2 ^ 32 := length
  refine ⟨_, accepted, ?_, ?_⟩
  · rw [same, wavFile_dataSize, length, Nat.mod_self]
  · rw [same]
    rintro ⟨wav, samples', read, -, riff, -⟩
    rw [readWav_riffSize read, wavFile_riffSize, List.length_drop, wavFile_length, length] at riff
    exact absurd riff (by decide)

end Stemd.Core
