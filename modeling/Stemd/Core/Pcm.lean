import Mathlib.Algebra.Ring.Nat
import Mathlib.Data.List.Basic
import Stemd.Core.Float32
import Stemd.Core.Format

/-! Planar audio and its interleaved wire payloads.

The codecs are written once over the sample operations they use. `F32` instantiates
them with the arithmetic of the program. Byte strides are 64-bit and wrap. -/

set_option autoImplicit false

namespace Stemd.Core

class Sample (F : Type) where
  ofWord : BitVec 32 → F
  toWord : F → BitVec 32
  /-- `f32::from(v) / S16_TO_FLOAT` -/
  fromS16 : BitVec 16 → F
  clampUnit : F → F
  mul : F → F → F
  one : F
  floatToS16 : F
  roundToI16 : F → BitVec 16

instance : Sample F32 where
  ofWord := id
  toWord := id
  fromS16 := F32.fromS16
  clampUnit := F32.clampUnit
  mul := F32.mul
  one := F32.encode false 1 0
  floatToS16 := F32.encode false 32767 0
  roundToI16 := F32.roundToI16

variable {F : Type} [Sample F]

def quantiseS16 (v : F) : BitVec 16 :=
  Sample.roundToI16 (Sample.mul (Sample.clampUnit v) Sample.floatToS16)

def throughS16 (v : F) : F := Sample.fromS16 (quantiseS16 (Sample.mul v Sample.one))

def leBytes : Nat → Nat → List UInt8
  | 0, _ => []
  | width + 1, n => UInt8.ofNat n :: leBytes width (n / 256)

def leValue : List UInt8 → Nat
  | [] => 0
  | b :: rest => b.toNat + 256 * leValue rest

@[simp] theorem leBytes_length (width n : Nat) : (leBytes width n).length = width := by
  induction width generalizing n with
  | zero => rfl
  | succ width ih => simp [leBytes, ih]

theorem leValue_leBytes (width n : Nat) : leValue (leBytes width n) = n % 256 ^ width := by
  induction width generalizing n with
  | zero => simp [leBytes, leValue, Nat.mod_one]
  | succ width ih =>
      have low : (UInt8.ofNat n).toNat = n % 256 := UInt8.toNat_ofNat'
      rw [leBytes, leValue, ih, low, Nat.pow_succ', Nat.mod_mul]

def decodeSample (format : PcmFormat) (bytes : List UInt8) : F :=
  match format with
  | .s16le => Sample.fromS16 (BitVec.ofNat 16 (leValue bytes))
  | .f32le => Sample.ofWord (BitVec.ofNat 32 (leValue bytes))

def encodeSample (format : PcmFormat) (v : F) : List UInt8 :=
  match format with
  | .s16le => leBytes 2 (quantiseS16 v).toNat
  | .f32le => leBytes 4 (Sample.toWord v).toNat

theorem encodeSample_length (format : PcmFormat) (v : F) :
    (encodeSample format v).length = format.bytesPerSample := by
  cases format <;> simp [encodeSample, PcmFormat.bytesPerSample]

theorem decodeSample_encodeSample_s16 (v : F) :
    decodeSample .s16le (encodeSample .s16le v) = Sample.fromS16 (F := F) (quantiseS16 v) := by
  have bound := (quantiseS16 v).isLt
  simp only [decodeSample, encodeSample, leValue_leBytes]
  rw [Nat.mod_eq_of_lt (by omega), BitVec.ofNat_toNat, BitVec.setWidth_eq]

/-- The whole chunks of `size` elements; a shorter rest is dropped. -/
def chunksExact {α : Type} (size : Nat) (l : List α) : List (List α) :=
  (List.range (l.length / size)).map fun i => (l.drop (i * size)).take size

theorem chunksExact_append {α : Type} {size : Nat} (positive : 0 < size) {chunk : List α}
    (length : chunk.length = size) (rest : List α) :
    chunksExact size (chunk ++ rest) = chunk :: chunksExact size rest := by
  have count : (chunk ++ rest).length / size = rest.length / size + 1 := by
    rw [List.length_append, length, Nat.add_comm, Nat.add_div_right _ positive]
  simp only [chunksExact, count, List.range_succ_eq_map, List.map_cons, List.map_map]
  congr 1
  · simp [← length]
  · apply List.map_congr_left
    intro i _
    have shift : (i + 1) * size = chunk.length + i * size := by
      rw [length, Nat.succ_mul, Nat.add_comm]
    simp only [Function.comp_apply, Nat.succ_eq_add_one, shift, List.drop_length_add_append]

theorem chunksExact_flatMap {α β : Type} {size : Nat} (positive : 0 < size) (chunk : α → List β)
    {items : List α} (length : ∀ item ∈ items, (chunk item).length = size) :
    chunksExact size (items.flatMap chunk) = items.map chunk := by
  induction items with
  | nil => simp [chunksExact]
  | cons item rest ih =>
      rw [List.flatMap_cons, chunksExact_append positive (length item List.mem_cons_self),
        ih fun i member => length i (List.mem_cons_of_mem _ member), List.map_cons]

/-- Planar float audio: `data[channel][sample]`. -/
structure Audio (F : Type) where
  data : List (List F)
  sampleRate : UInt32
  deriving DecidableEq

inductive PcmError where
  | ragged (len : Nat) (channels : UInt64)
  | raggedChannels (channel found frames : Nat)
  deriving DecidableEq, Repr

namespace Audio

def channels (audio : Audio F) : Nat := audio.data.length

def frames (audio : Audio F) : Nat := (audio.data.head?.map List.length).getD 0

/-- Every channel as long as the first, which is what readers of `frames` rely on. -/
def Rectangular (audio : Audio F) : Prop := ∀ c ∈ audio.data, c.length = audio.frames

def checked (data : List (List F)) (sampleRate : UInt32) : Except PcmError (Audio F) :=
  let audio : Audio F := ⟨data, sampleRate⟩
  match data.zipIdx.find? fun entry => entry.1.length ≠ audio.frames with
  | some (samples, channel) => .error (.raggedChannels channel samples.length audio.frames)
  | none => .ok audio

def frame (audio : Audio F) (i : Nat) : List F := audio.data.filterMap (·[i]?)

def toInterleavedScaled (audio : Audio F) (format : PcmFormat) (gain : F) : List UInt8 :=
  (List.range audio.frames).flatMap fun i =>
    (audio.frame i).flatMap fun v => encodeSample format (Sample.mul v gain)

def toInterleaved (audio : Audio F) (format : PcmFormat) : List UInt8 :=
  audio.toInterleavedScaled format Sample.one

def fromInterleaved (bytes : List UInt8) (format : PcmFormat) (channels : UInt64)
    (sampleRate : UInt32) : Except PcmError (Audio F) :=
  let stride := (UInt64.ofNat format.bytesPerSample * channels).toNat
  if channels = 0 ∨ bytes.length % stride ≠ 0 then .error (.ragged bytes.length channels)
  else
    let rows := (chunksExact stride bytes).map fun row =>
      (chunksExact format.bytesPerSample row).map (decodeSample format)
    .ok ⟨(List.range channels.toNat).map fun ch => rows.filterMap (·[ch]?), sampleRate⟩

def mapSamples (audio : Audio F) (f : F → F) : Audio F :=
  { audio with data := audio.data.map (·.map f) }

theorem map_eq_self_iff {α : Type} (f : α → α) (l : List α) :
    l.map f = l ↔ ∀ v ∈ l, f v = v := by
  nth_rewrite 2 [← List.map_id l]
  exact List.map_inj_left

omit [Sample F] in
theorem mapSamples_eq_self_iff (audio : Audio F) (f : F → F) :
    audio.mapSamples f = audio ↔ ∀ c ∈ audio.data, ∀ v ∈ c, f v = v := by
  obtain ⟨data, rate⟩ := audio
  simp only [mapSamples, mk.injEq, and_true, map_eq_self_iff]

omit [Sample F] in
theorem frame_eq_map {audio : Audio F} {i : Nat}
    (reach : ∀ samples ∈ audio.data, i < samples.length) (pad : F) :
    audio.frame i = audio.data.map fun samples => samples.getD i pad := by
  rw [frame, ← List.filterMap_eq_map]
  apply List.filterMap_congr
  intro samples member
  have inside := reach samples member
  simp [inside]

omit [Sample F] in
theorem Rectangular.frame_eq {audio : Audio F} (rectangular : audio.Rectangular) {i : Nat}
    (bound : i < audio.frames) (pad : F) :
    audio.frame i = audio.data.map fun c => c.getD i pad :=
  frame_eq_map (fun samples member => rectangular samples member ▸ bound) pad

theorem filterMap_range_getElem? {α β : Type} (l : List α) (f : α → β) :
    ((List.range l.length).filterMap fun i => (l[i]?).map f) = l.map f := by
  induction l with
  | nil => rfl
  | cons head tail ih =>
      rw [List.length_cons, List.range_succ_eq_map]
      simpa [List.filterMap_map, Function.comp_def] using ih

theorem columns_of_frames {audio : Audio F} (rectangular : audio.Rectangular) (f : F → F) :
    ((List.range audio.channels).map fun ch =>
      ((List.range audio.frames).map fun i => (audio.frame i).map f).filterMap (·[ch]?)) =
        (audio.mapSamples f).data := by
  apply List.ext_getElem (by simp [mapSamples, channels])
  intro ch left right
  have inside : ch < audio.data.length := by simpa [mapSamples] using right
  have height : audio.data[ch].length = audio.frames := rectangular _ (List.getElem_mem inside)
  simp only [List.getElem_map, List.getElem_range, List.filterMap_map, mapSamples]
  rw [← filterMap_range_getElem?, height]
  apply List.filterMap_congr
  intro i member
  have bound : i < audio.frames := List.mem_range.mp member
  have row := rectangular.frame_eq bound (Sample.fromS16 0)
  simp [row, inside, height, bound]

theorem frame_length {audio : Audio F} (rectangular : audio.Rectangular) {i : Nat}
    (bound : i < audio.frames) : (audio.frame i).length = audio.channels := by
  rw [rectangular.frame_eq bound (Sample.fromS16 0), List.length_map, channels]

theorem row_length {audio : Audio F} {i : Nat} (reach : ∀ samples ∈ audio.data, i < samples.length)
    (format : PcmFormat) (gain : F) :
    ((audio.frame i).flatMap fun v => encodeSample format (Sample.mul v gain)).length =
      format.bytesPerSample * audio.channels := by
  have samples : (audio.frame i).length = audio.channels := by
    rw [frame_eq_map reach gain, List.length_map, channels]
  rw [List.length_flatMap, ← samples]
  simp [encodeSample_length, Nat.mul_comm]

theorem toInterleavedScaled_length {audio : Audio F}
    (reach : ∀ samples ∈ audio.data, audio.frames ≤ samples.length) (format : PcmFormat)
    (gain : F) : (audio.toInterleavedScaled format gain).length =
      audio.frames * (format.bytesPerSample * audio.channels) := by
  have rows : ∀ i ∈ List.range audio.frames,
      ((audio.frame i).flatMap fun v => encodeSample format (Sample.mul v gain)).length =
        format.bytesPerSample * audio.channels := by
    intro i member
    apply row_length
    intro samples present
    exact Nat.lt_of_lt_of_le (List.mem_range.mp member) (reach samples present)
  rw [toInterleavedScaled, List.length_flatMap, List.map_congr_left rows]
  simp

def through (format : PcmFormat) (v : F) : F :=
  decodeSample format (encodeSample format (Sample.mul v Sample.one))

/-- A payload of a rectangular buffer decodes to that buffer with every sample taken through
the codec. -/
theorem fromInterleaved_toInterleaved (format : PcmFormat) {audio : Audio F}
    (rectangular : audio.Rectangular) (channels : UInt64)
    (count : channels.toNat = audio.channels) (some : 0 < audio.channels)
    (small : format.bytesPerSample * audio.channels < 2 ^ 64) :
    fromInterleaved (audio.toInterleaved format) format channels audio.sampleRate =
      .ok (audio.mapSamples (through format)) := by
  have nonzero : channels ≠ 0 := fun zero => by simp [zero] at count; omega
  have wide : 0 < format.bytesPerSample := by cases format <;> decide
  have stride : (UInt64.ofNat format.bytesPerSample * channels).toNat =
      format.bytesPerSample * audio.channels := by
    have word : (UInt64.ofNat format.bytesPerSample).toNat = format.bytesPerSample := by
      cases format <;> rfl
    rw [UInt64.toNat_mul, count, word]
    exact Nat.mod_eq_of_lt small
  have rowLength : ∀ i ∈ List.range audio.frames,
      ((audio.frame i).flatMap fun v => encodeSample format (Sample.mul v Sample.one)).length =
        format.bytesPerSample * audio.channels := fun i member =>
    row_length (fun c present => rectangular c present ▸ List.mem_range.mp member) format _
  have whole : (audio.toInterleaved format).length % (format.bytesPerSample * audio.channels) =
      0 := by
    have reach : ∀ c ∈ audio.data, audio.frames ≤ c.length := fun c present =>
      Nat.le_of_eq (rectangular c present).symm
    rw [toInterleaved, toInterleavedScaled_length reach]
    exact Nat.mul_mod_left _ _
  have samples : ∀ i, (chunksExact format.bytesPerSample
      ((audio.frame i).flatMap fun v => encodeSample format (Sample.mul v Sample.one))).map
        (decodeSample format) = (audio.frame i).map (through format) := by
    intro i
    rw [chunksExact_flatMap wide _ fun v _ => encodeSample_length format _, List.map_map]
    rfl
  simp only [fromInterleaved, stride]
  rw [if_neg (by simp [nonzero, whole]), toInterleaved, toInterleavedScaled,
    chunksExact_flatMap (Nat.mul_pos wide some) _ rowLength]
  simp only [List.map_map, Function.comp_def, samples, count, columns_of_frames rectangular]
  rfl

theorem fromInterleaved_toInterleaved_s16 {audio : Audio F} (rectangular : audio.Rectangular)
    (channels : UInt64) (count : channels.toNat = audio.channels) (some : 0 < audio.channels)
    (small : 2 * audio.channels < 2 ^ 64) :
    fromInterleaved (audio.toInterleaved .s16le) .s16le channels audio.sampleRate =
      .ok (audio.mapSamples throughS16) := by
  have same : (through .s16le : F → F) = throughS16 :=
    funext fun v => decodeSample_encodeSample_s16 _
  rw [← same]
  exact fromInterleaved_toInterleaved .s16le rectangular channels count some small

end Audio

end Stemd.Core
