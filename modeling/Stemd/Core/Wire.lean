import Stemd.Core.Exact

/-! Payloads that are decoded and encoded again.

A payload is a sequence of samples whatever its geometry: decoding sorts them into channels
and encoding reads them back in the order they came. What a trip leaves of the bytes is
therefore what it leaves of each sample. -/

set_option autoImplicit false

namespace Stemd.Core

open Stemd.Semantics

/-- The most bytes one allocation may have: `isize::MAX` on a 64-bit machine. -/
def isizeMax : Nat := 2 ^ 63 - 1

inductive Call (α : Type) where
  | returned (value : α)
  | panicked
  deriving DecidableEq

def Fits (frames channels : Nat) : Prop := 4 * frames ≤ isizeMax ∧ 24 * channels ≤ isizeMax

instance (frames channels : Nat) : Decidable (Fits frames channels) :=
  inferInstanceAs (Decidable (_ ∧ _))

namespace Audio

variable {F : Type} [Sample F]

/-- `Audio::from_interleaved` with what it divides by and what it allocates. -/
def fromInterleavedCall (bytes : List UInt8) (format : PcmFormat) (channels : UInt64)
    (sampleRate : UInt32) : Call (Except PcmError (Audio F)) :=
  let stride := (UInt64.ofNat format.bytesPerSample * channels).toNat
  if channels = 0 ∨ bytes.length % stride ≠ 0 then
    .returned (.error (.ragged bytes.length channels))
  -- Zero has the multiple zero and divides nothing.
  else if stride = 0 then .panicked
  else if Fits (bytes.length / stride) channels.toNat then
    .returned (fromInterleaved bytes format channels sampleRate)
  else .panicked

/-- `Audio::to_interleaved_scaled` with what it indexes and what it allocates. -/
def toInterleavedScaledCall (audio : Audio F) (format : PcmFormat) (gain : F) :
    Call (List UInt8) :=
  -- The other channels are read as far as the first one goes.
  if ∃ c ∈ audio.data, c.length < audio.frames then .panicked
  else if (audio.toInterleavedScaled format gain).length ≤ isizeMax then
    .returned (audio.toInterleavedScaled format gain)
  else .panicked

def toInterleavedCall (audio : Audio F) (format : PcmFormat) : Call (List UInt8) :=
  audio.toInterleavedScaledCall format Sample.one

end Audio

theorem leValue_lt (bytes : List UInt8) : leValue bytes < 256 ^ bytes.length := by
  induction bytes with
  | nil => simp [leValue]
  | cons b rest ih =>
      have low := b.toNat_lt
      rw [leValue, List.length_cons, Nat.pow_succ]
      omega

theorem leBytes_leValue (bytes : List UInt8) : leBytes bytes.length (leValue bytes) = bytes := by
  induction bytes with
  | nil => rfl
  | cons b rest ih =>
      have low := b.toNat_lt
      have first : UInt8.ofNat (b.toNat + 256 * leValue rest) = b := by
        apply UInt8.toNat_inj.mp
        rw [UInt8.toNat_ofNat']
        omega
      have others : (b.toNat + 256 * leValue rest) / 256 = leValue rest := by omega
      rw [leValue, List.length_cons, leBytes, first, others, ih]

theorem leBytes_word_iff {bits width : Nat} (same : 2 ^ bits = 256 ^ width) (word : BitVec bits)
    {sample : List UInt8} (length : sample.length = width) :
    leBytes width word.toNat = sample ↔ word = BitVec.ofNat bits (leValue sample) := by
  have below := leValue_lt sample
  rw [length, ← same] at below
  constructor
  · intro written
    apply BitVec.eq_of_toNat_eq
    rw [← written, leValue_leBytes, BitVec.toNat_ofNat, same, Nat.mod_mod, ← same,
      Nat.mod_eq_of_lt word.isLt]
  · rintro rfl
    rw [BitVec.toNat_ofNat, Nat.mod_eq_of_lt below, ← length, leBytes_leValue]

section

variable {α β : Type}

theorem chunksExact_whole {size : Nat} (positive : 0 < size) {first : List α} (k : Nat)
    (whole : first.length = k * size) (rest : List α) :
    chunksExact size (first ++ rest) = chunksExact size first ++ chunksExact size rest := by
  induction k generalizing first with
  | zero =>
      rw [Nat.zero_mul, List.length_eq_zero_iff] at whole
      subst whole
      simp [chunksExact]
  | succ k ih =>
      rw [Nat.succ_mul] at whole
      have cut : (first.take size).length = size := by
        rw [List.length_take]
        omega
      have left : (first.drop size).length = k * size := by
        rw [List.length_drop]
        omega
      rw [← List.take_append_drop size first, List.append_assoc,
        chunksExact_append positive cut, chunksExact_append positive cut, ih left,
        List.cons_append]

theorem chunksExact_flatten {size : Nat} (positive : 0 < size) (k : Nat) {l : List α}
    (whole : l.length = k * size) :
    (chunksExact size l).flatten = l ∧ ∀ chunk ∈ chunksExact size l, chunk.length = size := by
  induction k generalizing l with
  | zero =>
      rw [Nat.zero_mul, List.length_eq_zero_iff] at whole
      subst whole
      simp [chunksExact]
  | succ k ih =>
      rw [Nat.succ_mul] at whole
      have cut : (l.take size).length = size := by
        rw [List.length_take]
        omega
      obtain ⟨joined, lengths⟩ := ih (l := l.drop size) (by rw [List.length_drop]; omega)
      rw [← List.take_append_drop size l, chunksExact_append positive cut, List.flatten_cons,
        joined]
      refine ⟨rfl, fun chunk member => ?_⟩
      rcases List.mem_cons.mp member with rfl | later
      · exact cut
      · exact lengths chunk later

theorem whole_samples {size n : Nat} {l : List α} (whole : l.length % (size * n) = 0) :
    l.length = l.length / size * size := by
  have divides : size ∣ l.length := Nat.dvd_trans ⟨n, rfl⟩ (Nat.dvd_of_mod_eq_zero whole)
  exact (Nat.div_mul_cancel divides).symm

theorem chunksExact_rows {size n : Nat} (positive : 0 < size) {rows : List (List α)}
    (lengths : ∀ row ∈ rows, row.length = n * size) :
    rows.flatMap (chunksExact size) = chunksExact size rows.flatten := by
  induction rows with
  | nil => simp [chunksExact]
  | cons row rows ih =>
      rw [List.flatMap_cons, List.flatten_cons,
        chunksExact_whole positive n (lengths row List.mem_cons_self),
        ih fun row later => lengths row (List.mem_cons_of_mem _ later)]

theorem flatMap_eq_flatten_iff (chunks : List (List α)) (f : List α → List α)
    (lengths : ∀ chunk ∈ chunks, (f chunk).length = chunk.length) :
    chunks.flatMap f = chunks.flatten ↔ ∀ chunk ∈ chunks, f chunk = chunk := by
  induction chunks with
  | nil => simp
  | cons chunk chunks ih =>
      have rest := ih fun later member => lengths later (List.mem_cons_of_mem _ member)
      rw [List.flatMap_cons, List.flatten_cons, List.forall_mem_cons, ← rest]
      constructor
      · exact fun same => List.append_inj same (lengths chunk List.mem_cons_self)
      · rintro ⟨here, there⟩
        rw [here, there]

end

section

variable {F : Type} [Sample F]

def sorted (channels : Nat) (rows : List (List F)) (sampleRate : UInt32) : Audio F :=
  ⟨(List.range channels).map fun ch => rows.filterMap (·[ch]?), sampleRate⟩

theorem column_eq {channels ch : Nat} (channel : ch < channels) {rows : List (List F)}
    (lengths : ∀ row ∈ rows, row.length = channels) :
    rows.filterMap (·[ch]?) = rows.map fun row => row.getD ch (Sample.fromS16 0) := by
  rw [← List.filterMap_eq_map]
  apply List.filterMap_congr
  intro row member
  have inside : ch < row.length := lengths row member ▸ channel
  simp [inside]

theorem sorted_spec {channels : Nat} (some : 0 < channels) {rows : List (List F)}
    (lengths : ∀ row ∈ rows, row.length = channels) (sampleRate : UInt32) :
    (sorted channels rows sampleRate).Rectangular ∧
      (sorted channels rows sampleRate).frames = rows.length ∧
      (List.range rows.length).map (sorted channels rows sampleRate).frame = rows := by
  have frames : (sorted channels rows sampleRate).frames = rows.length := by
    obtain ⟨n, rfl⟩ := Nat.exists_eq_succ_of_ne_zero (Nat.ne_of_gt some)
    simp only [Audio.frames, sorted, List.range_succ_eq_map, List.map_cons, List.head?_cons,
      Option.map_some, Option.getD_some]
    rw [column_eq some lengths, List.length_map]
  refine ⟨fun column member => ?_, frames, ?_⟩
  · obtain ⟨ch, channel, rfl⟩ := List.mem_map.mp member
    rw [frames, column_eq (List.mem_range.mp channel) lengths, List.length_map]
  · apply List.ext_getElem (by simp)
    intro i left right
    have length : rows[i].length = channels := lengths _ (List.getElem_mem right)
    have cells : ∀ ch ∈ List.range channels, ((rows.filterMap (·[ch]?))[i]? : Option F) =
        (fun ch => Option.some (rows[i].getD ch (Sample.fromS16 0))) ch := by
      intro ch member
      rw [column_eq (List.mem_range.mp member) lengths, List.getElem?_map,
        List.getElem?_eq_getElem right, Option.map_some]
    have row : (sorted channels rows sampleRate).frame i =
        (List.range channels).map fun ch => rows[i].getD ch (Sample.fromS16 0) := by
      rw [Audio.frame, sorted, List.filterMap_map, ← List.filterMap_eq_map]
      exact List.filterMap_congr cells
    rw [List.getElem_map, List.getElem_range, row]
    apply List.ext_getElem (by simp [length])
    intro ch left' right'
    simp [right']

structure Decoded (format : PcmFormat) (bytes : List UInt8) (channels : UInt64)
    (sampleRate : UInt32) (audio : Audio F) : Prop where
  rectangular : audio.Rectangular
  count : audio.channels = channels.toNat
  frames : audio.frames = bytes.length / (format.bytesPerSample * channels.toNat)
  rate : audio.sampleRate = sampleRate
  encoded : audio.toInterleaved format = (chunksExact format.bytesPerSample bytes).flatMap
    fun sample =>
      encodeSample format (Sample.mul (decodeSample format sample : F) Sample.one)

theorem stride_eq (format : PcmFormat) {channels : UInt64}
    (small : format.bytesPerSample * channels.toNat < 2 ^ 64) :
    (UInt64.ofNat format.bytesPerSample * channels).toNat =
      format.bytesPerSample * channels.toNat := by
  have word : (UInt64.ofNat format.bytesPerSample).toNat = format.bytesPerSample := by
    cases format <;> rfl
  rw [UInt64.toNat_mul, word]
  exact Nat.mod_eq_of_lt small

theorem channels_pos {channels : UInt64} (some : channels ≠ 0) : 0 < channels.toNat := by
  apply Nat.pos_of_ne_zero
  intro zero
  exact some (UInt64.toNat_inj.mp zero)

theorem bytesPerSample_pos (format : PcmFormat) : 0 < format.bytesPerSample := by
  cases format <;> decide

theorem fromInterleaved_spec (format : PcmFormat) {bytes : List UInt8} {channels : UInt64}
    (some : channels ≠ 0) (small : format.bytesPerSample * channels.toNat < 2 ^ 64)
    (whole : bytes.length % (format.bytesPerSample * channels.toNat) = 0) (sampleRate : UInt32) :
    ∃ audio : Audio F, Audio.fromInterleaved bytes format channels sampleRate = .ok audio ∧
      Decoded format bytes channels sampleRate audio := by
  have wide := bytesPerSample_pos format
  have count := channels_pos some
  have positive := Nat.mul_pos wide count
  have total : bytes.length = bytes.length / (format.bytesPerSample * channels.toNat) *
      (format.bytesPerSample * channels.toNat) :=
    (Nat.div_mul_cancel (Nat.dvd_of_mod_eq_zero whole)).symm
  obtain ⟨joined, lengths⟩ := chunksExact_flatten positive _ total
  have cells : ∀ row ∈ (chunksExact (format.bytesPerSample * channels.toNat) bytes).map
      fun row => (chunksExact format.bytesPerSample row).map (decodeSample (F := F) format),
      row.length = channels.toNat := by
    intro row member
    obtain ⟨chunk, here, rfl⟩ := List.mem_map.mp member
    simp [chunksExact, lengths chunk here, wide]
  obtain ⟨rectangular, height, order⟩ := sorted_spec count cells sampleRate
  refine ⟨_, if_neg (by simp [some, stride_eq format small, whole]), ?_⟩
  rw [stride_eq format small]
  -- From here on both directions are about rows of samples.
  change Decoded format bytes channels sampleRate (sorted channels.toNat _ sampleRate)
  have frames := height
  rw [List.length_map, chunksExact, List.length_map, List.length_range] at frames
  refine ⟨rectangular, by simp [Audio.channels, sorted], frames, rfl, ?_⟩
  rw [Audio.toInterleaved, Audio.toInterleavedScaled, height, ← List.flatMap_map, order,
    List.flatMap_map]
  simp only [List.flatMap_map]
  rw [← List.flatMap_assoc, chunksExact_rows (n := channels.toNat) wide fun row member => by
    rw [lengths row member, Nat.mul_comm], joined]

theorem stride_lt (format : PcmFormat) {channels : Nat} (fits : 24 * channels ≤ isizeMax) :
    format.bytesPerSample * channels < 2 ^ 64 := by
  have most : format.bytesPerSample ≤ 4 := by cases format <;> decide
  have least := Nat.mul_le_mul_right channels most
  rw [isizeMax] at fits
  omega

/-- A decode succeeds on whole frames whose buffers can be asked for. A stride that wraps asks
for more vectors than there can be. -/
theorem fromInterleavedCall_ok_iff {format : PcmFormat} {bytes : List UInt8} {channels : UInt64}
    {sampleRate : UInt32} {audio : Audio F} :
    Audio.fromInterleavedCall bytes format channels sampleRate = .returned (.ok audio) ↔
      channels ≠ 0 ∧ bytes.length % (format.bytesPerSample * channels.toNat) = 0 ∧
        Fits (bytes.length / (format.bytesPerSample * channels.toNat)) channels.toNat ∧
          Audio.fromInterleaved bytes format channels sampleRate = .ok audio := by
  -- Few enough vectors keep the stride from wrapping; too many cannot be asked for.
  by_cases fits : 24 * channels.toNat ≤ isizeMax
  · simp only [Audio.fromInterleavedCall, stride_eq format (stride_lt format fits)]
    by_cases refused :
        channels = 0 ∨ bytes.length % (format.bytesPerSample * channels.toNat) ≠ 0
    · rw [if_pos refused]
      constructor
      · intro decoded
        cases decoded
      · rintro ⟨some, whole, -⟩
        exact absurd whole (refused.resolve_left some)
    · obtain ⟨some, whole⟩ := not_or.mp refused
      have positive := Nat.mul_pos (bytesPerSample_pos format) (channels_pos some)
      rw [if_neg refused, if_neg positive.ne']
      split <;> simp_all
  · constructor
    · intro decoded
      simp only [Audio.fromInterleavedCall] at decoded
      split at decoded
      · cases decoded
      split at decoded
      · cases decoded
      rw [if_neg fun both => fits both.2] at decoded
      cases decoded
    · rintro ⟨-, -, both, -⟩
      exact absurd both.2 fits

theorem fromInterleavedCall_ragged {format : PcmFormat} {bytes : List UInt8} {channels : UInt64}
    (small : format.bytesPerSample * channels.toNat < 2 ^ 64)
    (ragged : bytes.length % (format.bytesPerSample * channels.toNat) ≠ 0) (sampleRate : UInt32) :
    Audio.fromInterleavedCall (F := F) bytes format channels sampleRate =
      .returned (.error (.ragged bytes.length channels)) := by
  simp only [Audio.fromInterleavedCall, stride_eq format small]
  rw [if_pos (.inr ragged)]

theorem fromInterleavedCall_panics {format : PcmFormat} {bytes : List UInt8} {channels : UInt64}
    (some : channels ≠ 0) (small : format.bytesPerSample * channels.toNat < 2 ^ 64)
    (whole : bytes.length % (format.bytesPerSample * channels.toNat) = 0)
    (exceeds : ¬ Fits (bytes.length / (format.bytesPerSample * channels.toNat)) channels.toNat)
    (sampleRate : UInt32) :
    Audio.fromInterleavedCall (F := F) bytes format channels sampleRate = .panicked := by
  have positive := Nat.mul_pos (bytesPerSample_pos format) (channels_pos some)
  simp only [Audio.fromInterleavedCall, stride_eq format small]
  rw [if_neg (by simp [some, whole]), if_neg positive.ne', if_neg exceeds]

theorem toInterleavedCall_eq {audio : Audio F} (rectangular : audio.Rectangular)
    (format : PcmFormat) : audio.toInterleavedCall format =
      if (audio.toInterleaved format).length ≤ isizeMax then
        .returned (audio.toInterleaved format)
      else .panicked := by
  have read : ¬ ∃ c ∈ audio.data, c.length < audio.frames := by
    rintro ⟨c, member, short⟩
    exact absurd (rectangular c member) short.ne
  rw [Audio.toInterleavedCall, Audio.toInterleavedScaledCall, if_neg read]
  rfl

theorem payload_kept_iff (format : PcmFormat) {bytes : List UInt8} {channels : UInt64}
    (some : channels ≠ 0) (slice : bytes.length ≤ isizeMax)
    (whole : bytes.length % (format.bytesPerSample * channels.toNat) = 0) (sampleRate : UInt32) :
    (∃ audio : Audio F,
      Audio.fromInterleavedCall bytes format channels sampleRate = .returned (.ok audio) ∧
        audio.toInterleavedCall format = .returned bytes) ↔
      Fits (bytes.length / (format.bytesPerSample * channels.toNat)) channels.toNat ∧
        ∀ sample ∈ chunksExact format.bytesPerSample bytes,
          encodeSample format (Sample.mul (decodeSample format sample : F) Sample.one) =
            sample := by
  by_cases fits : Fits (bytes.length / (format.bytesPerSample * channels.toNat)) channels.toNat
  swap
  · constructor
    · rintro ⟨audio, decoded, -⟩
      exact absurd (fromInterleavedCall_ok_iff.mp decoded).2.2.1 fits
    · intro both
      exact absurd both.1 fits
  obtain ⟨audio, found, spec⟩ := fromInterleaved_spec (F := F) format some
    (stride_lt format fits.2) whole sampleRate
  obtain ⟨joined, lengths⟩ := chunksExact_flatten (bytesPerSample_pos format)
    _ (whole_samples whole)
  have kept : audio.toInterleaved format = bytes ↔
      ∀ sample ∈ chunksExact format.bytesPerSample bytes,
        encodeSample format (Sample.mul (decodeSample format sample : F) Sample.one) =
          sample := by
    rw [spec.encoded]
    -- Both are one chunk for each sample, so that they agree sample by sample.
    nth_rewrite 2 [← joined]
    apply flatMap_eq_flatten_iff
    intro sample member
    rw [encodeSample_length, lengths sample member]
  constructor
  · rintro ⟨audio', decoded, encoded⟩
    obtain ⟨-, -, -, found'⟩ := fromInterleavedCall_ok_iff.mp decoded
    cases found.symm.trans found'
    rw [toInterleavedCall_eq spec.rectangular] at encoded
    split at encoded
    · cases encoded
      exact ⟨fits, kept.mp rfl⟩
    · cases encoded
  · rintro ⟨-, each⟩
    refine ⟨audio, fromInterleavedCall_ok_iff.mpr ⟨some, whole, fits, found⟩, ?_⟩
    rw [toInterleavedCall_eq spec.rectangular, kept.mpr each, if_pos slice]

theorem toInterleaved_length {audio : Audio F} (rectangular : audio.Rectangular)
    (format : PcmFormat) : (audio.toInterleaved format).length =
      audio.frames * (format.bytesPerSample * audio.channels) :=
  Audio.toInterleavedScaled_length (fun c member => (rectangular c member).ge) format _

theorem toInterleavedScaledCall_returned {audio : Audio F} {format : PcmFormat} {gain : F}
    {bytes : List UInt8}
    (returned : audio.toInterleavedScaledCall format gain = .returned bytes) :
    bytes = audio.toInterleavedScaled format gain ∧
      bytes.length = audio.frames * (format.bytesPerSample * audio.channels) := by
  simp only [Audio.toInterleavedScaledCall] at returned
  split at returned
  · cases returned
  · rename_i none
    split at returned
    · cases returned
      exact ⟨rfl, Audio.toInterleavedScaled_length (fun c member => not_lt.mp fun short =>
        none ⟨c, member, short⟩) format gain⟩
    · cases returned

end

/-! ## 16-bit payloads -/

section

theorem quantised_word_eq_iff (word : BitVec 16) :
    quantiseS16 (Sample.mul (Sample.fromS16 word) Sample.one : ℚ) = word ↔
      word.toInt.natAbs ≤ 16384 := by
  obtain ⟨x, is⟩ : ∃ x : ℤ, word.toInt = x := ⟨_, rfl⟩
  have low : -32768 ≤ x := is ▸ word.le_toInt
  have high : x < 32768 := is ▸ word.toInt_lt
  have scaled : Sample.mul (Sample.fromS16 word) Sample.one = (x / 32768 : ℚ) := by
    rw [fromS16_eq, is]
    exact mul_one _
  have inScale : InScale (x / 32768 : ℚ) := by
    have low : (-32768 : ℚ) ≤ x := by exact_mod_cast low
    have high : (x : ℚ) < 32768 := by exact_mod_cast high
    exact abs_le.mpr ⟨by linarith, by linarith⟩
  -- What the two scales lose together is one part in `2 ^ 15`: half a step at half scale.
  have lost : (x : ℚ) - x / 32768 * 32767 = x / 32768 := by ring
  rw [scaled, ← BitVec.toInt_inj, quantiseS16_toInt inScale, is, roundAway_eq_iff, lost,
    abs_div, abs_of_pos (by norm_num : (0 : ℚ) < 32768), ← Int.cast_abs]
  have size : (x.natAbs : ℤ) = |x| := Int.natCast_natAbs x
  rw [div_lt_iff₀ (by norm_num), div_eq_iff (by norm_num)]
  constructor
  · intro near
    have most : (|x| : ℚ) ≤ 16384 := by
      rcases near with inside | ⟨tie, -⟩ <;> push_cast at * <;> linarith
    have most : |x| ≤ 16384 := by exact_mod_cast most
    omega
  · intro most
    have most : |x| ≤ 16384 := by omega
    rcases most.lt_or_eq with inside | tie
    · left
      have inside : ((|x| : ℤ) : ℚ) < 16384 := by exact_mod_cast inside
      linarith
    · right
      -- A tie is rounded away from zero, which is back to the sample.
      have apart : (x : ℚ) ≠ 0 := by
        intro zero
        have zero : x = 0 := by exact_mod_cast zero
        simp [zero] at tie
      have square := mul_self_pos.mpr apart
      rw [tie]
      exact ⟨by norm_num, by linarith⟩

/-- Decoding divides by one more than encoding multiplies by: a 16-bit payload comes back
exactly when no sample of it is past half scale. -/
theorem s16_payload_kept_iff {bytes : List UInt8} {channels : UInt64} (some : channels ≠ 0)
    (slice : bytes.length ≤ isizeMax) (whole : bytes.length % (2 * channels.toNat) = 0)
    (sampleRate : UInt32) :
    (∃ audio : Audio ℚ,
      Audio.fromInterleavedCall bytes .s16le channels sampleRate = .returned (.ok audio) ∧
        audio.toInterleavedCall .s16le = .returned bytes) ↔
      Fits (bytes.length / (2 * channels.toNat)) channels.toNat ∧
        ∀ sample ∈ chunksExact 2 bytes,
          (BitVec.ofNat 16 (leValue sample)).toInt.natAbs ≤ 16384 := by
  rw [payload_kept_iff .s16le some slice whole sampleRate]
  apply and_congr_right
  intro _
  apply forall₂_congr
  intro sample member
  obtain ⟨-, lengths⟩ := chunksExact_flatten (by decide : 0 < 2) _ (whole_samples whole)
  rw [← quantised_word_eq_iff]
  exact leBytes_word_iff (by decide) _ (lengths sample member)

/-- One stereo frame at half scale, which both halves of the range still keep. -/
theorem half_scale_kept :
    ∃ audio : Audio ℚ,
      Audio.fromInterleavedCall [0x00, 0x40, 0x00, 0xc0] .s16le 2 44100 =
          .returned (.ok audio) ∧
        audio.toInterleavedCall .s16le = .returned [0x00, 0x40, 0x00, 0xc0] :=
  (s16_payload_kept_iff (by decide) (by decide) (by decide) 44100).mpr ⟨by decide, by decide⟩

/-- One mono frame at full scale comes back one step lower. -/
theorem full_scale_lowered :
    Audio.fromInterleavedCall [0xff, 0x7f] .s16le 1 44100 =
        .returned (.ok (⟨[[32767 / 32768]], 44100⟩ : Audio ℚ)) ∧
      (⟨[[32767 / 32768]], 44100⟩ : Audio ℚ).toInterleavedCall .s16le =
        .returned [0xfe, 0x7f] ∧
      ¬ ∃ audio : Audio ℚ,
        Audio.fromInterleavedCall [0xff, 0x7f] .s16le 1 44100 = .returned (.ok audio) ∧
          audio.toInterleavedCall .s16le = .returned [0xff, 0x7f] := by
  have decoded : Audio.fromInterleavedCall [0xff, 0x7f] .s16le 1 44100 =
      .returned (.ok (⟨[[32767 / 32768]], 44100⟩ : Audio ℚ)) := by decide +kernel
  have encoded : (⟨[[32767 / 32768]], 44100⟩ : Audio ℚ).toInterleavedCall .s16le =
      .returned [0xfe, 0x7f] := by decide +kernel
  refine ⟨decoded, encoded, ?_⟩
  rintro ⟨audio, found, kept⟩
  cases decoded.symm.trans found
  exact absurd (encoded.symm.trans kept) (by decide)

end

/-! ## Float payloads -/

section

structure Words (F : Type) [Sample F] : Prop where
  ofWord_toWord : ∀ v : F, Sample.ofWord (Sample.toWord v) = v
  toWord_ofWord : ∀ word, Sample.toWord (Sample.ofWord word : F) = word
  unity : ∀ v : F, Sample.mul v Sample.one = v

variable {F : Type} [Sample F]

theorem Words.word_kept (words : Words F) {sample : List UInt8} (length : sample.length = 4) :
    encodeSample .f32le (Sample.mul (decodeSample .f32le sample : F) Sample.one) = sample := by
  rw [words.unity, decodeSample, encodeSample, words.toWord_ofWord]
  exact (leBytes_word_iff (by decide) _ length).mpr rfl

theorem Words.through_eq (words : Words F) (v : F) : Audio.through .f32le v = v := by
  have bound := (Sample.toWord v).isLt
  rw [Audio.through, words.unity, encodeSample, decodeSample, leValue_leBytes,
    Nat.mod_eq_of_lt (by omega), BitVec.ofNat_toNat, BitVec.setWidth_eq, words.ofWord_toWord]

/-- The float codec is a bijection between whole frames and rectangular audio, as far as either
can be held. -/
theorem f32_codec_bijective (words : Words F) (channels : UInt64) (sampleRate : UInt32) :
    (∀ bytes : List UInt8, bytes.length ≤ isizeMax →
      ((∃ audio : Audio F, Audio.fromInterleavedCall bytes .f32le channels sampleRate =
          .returned (.ok audio)) ↔
        channels ≠ 0 ∧ bytes.length % (4 * channels.toNat) = 0 ∧
          Fits (bytes.length / (4 * channels.toNat)) channels.toNat) ∧
      ∀ audio : Audio F,
        Audio.fromInterleavedCall bytes .f32le channels sampleRate = .returned (.ok audio) →
          audio.toInterleavedCall .f32le = .returned bytes) ∧
    ∀ audio : Audio F, audio.Rectangular → audio.channels = channels.toNat →
      0 < audio.channels → audio.sampleRate = sampleRate → Fits audio.frames audio.channels →
        audio.frames * (4 * audio.channels) ≤ isizeMax →
          ∃ bytes, audio.toInterleavedCall .f32le = .returned bytes ∧
            Audio.fromInterleavedCall bytes .f32le channels sampleRate =
              .returned (.ok audio) := by
  refine ⟨fun bytes slice => ⟨?_, ?_⟩, ?_⟩
  · constructor
    · rintro ⟨audio, decoded⟩
      obtain ⟨some, whole, fits, -⟩ := fromInterleavedCall_ok_iff.mp decoded
      exact ⟨some, whole, fits⟩
    · rintro ⟨some, whole, fits⟩
      obtain ⟨audio, found, -⟩ := fromInterleaved_spec (F := F) .f32le some
        (stride_lt .f32le fits.2) whole sampleRate
      exact ⟨audio, fromInterleavedCall_ok_iff.mpr ⟨some, whole, fits, found⟩⟩
  · intro audio decoded
    obtain ⟨some, whole, fits, -⟩ := fromInterleavedCall_ok_iff.mp decoded
    obtain ⟨-, lengths⟩ := chunksExact_flatten (by decide : 0 < 4) _ (whole_samples whole)
    obtain ⟨audio', decoded', encoded⟩ :=
      (payload_kept_iff (F := F) .f32le some slice whole sampleRate).mpr
        ⟨fits, fun sample member => words.word_kept (lengths sample member)⟩
    cases decoded.symm.trans decoded'
    exact encoded
  · intro audio rectangular count positive rate fits held
    have length := toInterleaved_length rectangular .f32le
    have stride : 0 < 4 * audio.channels := by omega
    have same : audio.mapSamples (Audio.through .f32le) = audio :=
      (Audio.mapSamples_eq_self_iff _ _).mpr fun _ _ v _ => words.through_eq v
    refine ⟨audio.toInterleaved .f32le, ?_, fromInterleavedCall_ok_iff.mpr ⟨?_, ?_, ?_, ?_⟩⟩
    · rw [toInterleavedCall_eq rectangular, length]
      exact if_pos held
    · rintro rfl
      exact absurd count positive.ne'
    · rw [length, ← count]
      exact Nat.mul_mod_left _ _
    · rw [length, ← count]
      change Fits (_ * (4 * _) / (4 * _)) _
      rwa [Nat.mul_div_cancel _ stride]
    · rw [← rate, Audio.fromInterleaved_toInterleaved .f32le rectangular channels count.symm
        positive (stride_lt .f32le fits.2), same]

structure Word where
  bits : BitVec 32
  deriving DecidableEq

instance : Sample Word where
  ofWord := .mk
  toWord := Word.bits
  fromS16 v := ⟨v.signExtend 32⟩
  clampUnit := id
  mul v _ := v
  one := ⟨1⟩
  floatToS16 := ⟨1⟩
  roundToI16 v := v.bits.truncate 16

theorem two_words_come_back :
    ∃ bytes, (⟨[[⟨1⟩], [⟨2⟩]], 44100⟩ : Audio Word).toInterleavedCall .f32le = .returned bytes ∧
      Audio.fromInterleavedCall bytes .f32le 2 44100 =
        .returned (.ok (⟨[[⟨1⟩], [⟨2⟩]], 44100⟩ : Audio Word)) :=
  (f32_codec_bijective ⟨fun _ => rfl, fun _ => rfl, fun _ => rfl⟩ 2 44100).2 _
    (by simp [Audio.Rectangular, Audio.frames]) rfl (by decide) rfl (by decide) (by decide)

/-- No payload at all is whole frames of any number of channels, but not of vectors that can be
asked for. -/
theorem empty_payload_panics :
    4 * (2305843009213693952 : UInt64).toNat < 2 ^ 64 ∧
      Audio.fromInterleavedCall (F := Word) [] .f32le 2305843009213693952 44100 = .panicked ∧
      ¬ ((∃ audio : Audio Word,
          Audio.fromInterleavedCall [] .f32le 2305843009213693952 44100 =
            .returned (.ok audio)) ↔
        (2305843009213693952 : UInt64) ≠ 0 ∧
          ([] : List UInt8).length % (4 * (2305843009213693952 : UInt64).toNat) = 0) := by
  have panics : Audio.fromInterleavedCall (F := Word) [] .f32le 2305843009213693952 44100 =
      .panicked := by decide +kernel
  refine ⟨by decide, panics, fun both => ?_⟩
  obtain ⟨audio, decoded⟩ := both.mpr ⟨by decide, rfl⟩
  cases panics.symm.trans decoded

end

end Stemd.Core
