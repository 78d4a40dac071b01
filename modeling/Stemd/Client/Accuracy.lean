import Stemd.Client.Assemble
import Stemd.Server.Parts

/-! How far what the client plays is from what the server separated.

A stem goes through sixteen bits at a gain of its own, scaled by one full scale on the way out and
another on the way in. What that costs a sample is bounded by the stem's peak. The derived part is
off by no more than the stems are together, and the parts add back to the mix all the same. -/

set_option autoImplicit false

namespace Stemd.Client

open Stemd.Core Stemd.Semantics Stemd.Server

def announced (url : String → String) (part : String × Audio ℚ) : StemRef :=
  ⟨part.1, url part.1, transferGain (peak part.2) .flac⟩

/-- The client is answered with the parts in a container that loses nothing of their integers. -/
structure Serves {E : Type} (wire : Wire E) (url : String → String) (output : Output)
    (parts : List (String × Audio ℚ)) (result : JobResult) : Prop where
  lossless : output.format = .flac
  format : result.format = output.format.display
  rate : result.sampleRate = UInt32.ofNat output.rate.hz
  stems : result.stems = parts.map (announced url)
  answers : ∀ part ∈ parts, ∃ raw, wire.fetchStem (url part.1) = .ok raw ∧
    wire.decodeFlac raw = .ok ((quantised part.2 (transferGain (peak part.2) .flac)).map
      (·.map Sample.fromS16))

def slack (audio : Audio ℚ) : ℚ := 3 / 65536 * max 1 (peak audio)

theorem le_foldl_max {samples : List ℚ} (low : ℚ) :
    low ≤ samples.foldl (fun peak v => max peak |v|) low ∧
      ∀ v ∈ samples, |v| ≤ samples.foldl (fun peak v => max peak |v|) low := by
  induction samples generalizing low with
  | nil => exact ⟨le_rfl, fun v member => by cases member⟩
  | cons first rest ih =>
      obtain ⟨start, inside⟩ := ih (max low |first|)
      refine ⟨(le_max_left _ _).trans start, fun v member => ?_⟩
      rcases List.mem_cons.mp member with rfl | later
      · exact (le_max_right _ _).trans start
      · exact inside v later

theorem le_peak {audio : Audio ℚ} {c i : Nat} {v : ℚ} (here : sample? audio.data c i = some v) :
    |v| ≤ peak audio := by
  obtain ⟨ch, channel, inside⟩ := Option.bind_eq_some_iff.mp here
  have member := List.mem_of_getElem? channel
  have all (data : List (List ℚ)) (low : ℚ) :
      low ≤ data.foldl (fun peak ch => ch.foldl (fun peak v => max peak |v|) peak) low ∧
        ∀ ch ∈ data, ∀ v ∈ ch,
          |v| ≤ data.foldl (fun peak ch => ch.foldl (fun peak v => max peak |v|) peak) low := by
    induction data generalizing low with
    | nil => exact ⟨le_rfl, fun ch none => by cases none⟩
    | cons first rest ih =>
        obtain ⟨start, below⟩ := ih (first.foldl (fun peak v => max peak |v|) low)
        refine ⟨(le_foldl_max low).1.trans start, fun ch there v inside => ?_⟩
        rcases List.mem_cons.mp there with rfl | later
        · exact ((le_foldl_max low).2 v inside).trans start
        · exact below ch later v inside
  exact (all audio.data 0).2 ch member v (List.mem_of_getElem? inside)

theorem transferGain_flac (p : ℚ) :
    0 < transferGain p .flac ∧ inverse (transferGain p .flac) = max 1 p ∧
      ∀ v, |v| ≤ p → InScale (v * transferGain p .flac) := by
  unfold transferGain
  have ceiling : hasHeadroom .flac = false := rfl
  rw [ceiling]
  by_cases within : p ≤ 1
  · rw [if_pos (.inr within)]
    refine ⟨one_pos, ?_, fun v below => ?_⟩
    · rw [inverse, if_pos one_pos, div_one, max_eq_left within]
    · rw [mul_one]
      exact below.trans within
  · have above : 1 < p := not_le.mp within
    have positive : 0 < p := one_pos.trans above
    rw [if_neg (by simp [within])]
    refine ⟨one_div_pos.mpr positive, ?_, fun v below => ?_⟩
    · rw [inverse, if_pos (one_div_pos.mpr positive), one_div_one_div, max_eq_right above.le]
    · rw [InScale, mul_one_div, abs_div, abs_of_pos positive, div_le_one positive]
      exact below

/-- Out at one full scale and back at another. -/
theorem through_sixteen_bits {v : ℚ} (inScale : InScale v) :
    |(Sample.fromS16 (quantiseS16 v) : ℚ) - v| ≤ 3 / 65536 := by
  have rounded := roundAway_error (v * 32767)
  have whole : |v| ≤ 1 := inScale
  rw [fromS16_eq, quantiseS16_toInt inScale]
  obtain ⟨low, high⟩ := abs_le.mp rounded
  obtain ⟨left, right⟩ := abs_le.mp whole
  refine abs_le.mpr ⟨?_, ?_⟩ <;> linarith

theorem sample?_map (f : ℚ → ℚ) (data : Planar) (c i : Nat) :
    sample? (data.map (·.map f)) c i = (sample? data c i).map f := by
  simp only [sample?, List.getElem?_map]
  cases data[c]? <;> simp

def received (audio : Audio ℚ) : Planar :=
  rescale ((quantised audio (transferGain (peak audio) .flac)).map (·.map Sample.fromS16))
    (transferGain (peak audio) .flac)

theorem received_within (audio : Audio ℚ) (c i : Nat) :
    |sampleAt (received audio) c i - audio.at c i| ≤ slack audio := by
  obtain ⟨positive, back, inScale⟩ := transferGain_flac (peak audio)
  have each : sample? (received audio) c i = (audio.sample? c i).map fun v =>
      Sample.fromS16 (quantiseS16 (v * transferGain (peak audio) .flac)) * max 1 (peak audio) := by
    rw [received, rescale, back, sample?_map, quantised]
    simp only [sample?, List.getElem?_map, Audio.sample?]
    cases audio.data[c]? with
    | none => rfl
    | some ch =>
        simp only [Option.map_some, Option.bind_some, List.getElem?_map, Option.map_map]
        rfl
  rw [sampleAt, Audio.at, each]
  cases here : audio.sample? c i with
  | none =>
      have some : (0 : ℚ) ≤ slack audio := by
        unfold slack
        positivity
      simpa using some
  | some v =>
      have close := through_sixteen_bits (inScale v (le_peak here))
      have level : (0 : ℚ) < max 1 (peak audio) := lt_max_of_lt_left one_pos
      have same : v = v * transferGain (peak audio) .flac * max 1 (peak audio) := by
        rw [← back, inverse, if_pos positive, mul_assoc, mul_one_div_cancel positive.ne', mul_one]
      simp only [Option.map_some, Option.getD_some]
      calc |Sample.fromS16 (quantiseS16 (v * transferGain (peak audio) .flac)) *
              max 1 (peak audio) - v|
          = |Sample.fromS16 (quantiseS16 (v * transferGain (peak audio) .flac)) -
              v * transferGain (peak audio) .flac| * max 1 (peak audio) := by
            rw [← abs_of_pos level, ← abs_mul, sub_mul, abs_of_pos level, ← same]
        _ ≤ slack audio := mul_le_mul_of_nonneg_right close level.le

/-- `Decoded::to_interleaved` -/
def toInterleaved (audio : Audio ℚ) (f32Output : Bool) : List UInt8 :=
  (List.range audio.frames).flatMap fun i => (audio.frame i).flatMap fun v =>
    encodeSample (if f32Output then .f32le else .s16le) v

theorem toInterleaved_eq (audio : Audio ℚ) (f32Output : Bool) : toInterleaved audio f32Output =
    audio.toInterleaved (if f32Output then .f32le else .s16le) := by
  have unity (v : ℚ) : Sample.mul v Sample.one = v := mul_one v
  simp only [toInterleaved, Audio.toInterleaved, Audio.toInterleavedScaled, unity]

def loss (audio : Audio ℚ) : ℚ := 3 / 65536 + max 0 (peak audio - 1)

theorem throughS16_within (v : ℚ) : |throughS16 v - v| ≤ 3 / 65536 + max 0 (|v| - 1) := by
  have unity : throughS16 v = Sample.fromS16 (quantiseS16 v) :=
    congrArg (fun w : ℚ => (Sample.fromS16 (quantiseS16 w) : ℚ)) (mul_one v)
  -- Clamping comes first, and again does nothing.
  have clamped : InScale (Sample.clampUnit v) := by
    refine abs_le.mpr ⟨le_max_left _ _, max_le (by norm_num) (min_le_right _ _)⟩
  have twice : quantiseS16 v = quantiseS16 (Sample.clampUnit v) := by
    obtain ⟨low, high⟩ := abs_le.mp clamped
    have still : Sample.clampUnit (Sample.clampUnit v) = (Sample.clampUnit v : ℚ) := by
      change max (-1) (min (Sample.clampUnit v) 1) = Sample.clampUnit v
      rw [min_eq_left high, max_eq_right low]
    unfold quantiseS16
    rw [still]
  have cut : |Sample.clampUnit v - v| ≤ max 0 (|v| - 1) := by
    change |max (-1) (min v 1) - v| ≤ max 0 (|v| - 1)
    by_cases inside : |v| ≤ 1
    · obtain ⟨low, high⟩ := abs_le.mp inside
      rw [min_eq_left high, max_eq_right low, sub_self, abs_zero]
      exact le_max_left _ _
    · refine le_max_of_le_right ?_
      rcases lt_abs.mp (not_le.mp inside) with above | below
      · rw [min_eq_right above.le, max_eq_right (by norm_num), abs_of_neg (sub_neg.mpr above),
          abs_of_pos (one_pos.trans above), neg_sub]
      · rw [min_eq_left (by linarith), max_eq_left (by linarith),
          abs_of_pos (by linarith : 0 < -1 - v), abs_of_neg (by linarith)]
        linarith
  rw [unity, twice]
  have both := abs_sub_le (Sample.fromS16 (quantiseS16 (Sample.clampUnit v)) : ℚ)
    (Sample.clampUnit v) v
  have close := through_sixteen_bits clamped
  linarith

/-- What the client ends up with, against what the server separated of the mix it was sent. -/
structure Faithful (audio mix : Audio ℚ) (stems : Stems ℚ) (parts : List Part) : Prop where
  addsBack : AddsBack audio.data parts
  shipped : ∀ stem ∈ stems.shipped, ∃ part ∈ parts, part.name = stem.1 ∧
    part.origin = .downloaded ∧ ∀ c i, |sampleAt part.samples c i - stem.2.at c i| ≤ slack stem.2
  derived : ∃ part ∈ parts, part.name = derivedName ∧ part.origin = .rebuiltHere ∧
    ∀ c i, |sampleAt part.samples c i - (stems.derivedPart mix).at c i| ≤
      loss audio + (stems.shipped.map fun stem => slack stem.2).sum

theorem download_served {E : Type} {wire : Wire E} {url : String → String}
    {output : Output} {parts : List (String × Audio ℚ)} {result : JobResult}
    (serves : Serves wire url output parts result) (f32Wire : Bool) :
    result.stems.mapM (download wire result.format f32Wire) =
      .ok (parts.map fun part => (part.1, received part.2)) := by
  rw [serves.stems, serves.format, serves.lossless]
  change (parts.map (announced url)).mapM (download wire "flac" f32Wire) = _
  have each : ∀ part ∈ parts, download wire "flac" f32Wire (announced url part) =
      (pure (part.1, received part.2) : Except E (String × Planar)) := by
    intro part member
    obtain ⟨raw, fetched, decoded⟩ := serves.answers part member
    simp only [download, announced, fetched, ok_bind, if_true, decoded]
    rfl
  rw [List.mapM_map]
  exact mapM_eq_map each

theorem sum_within {ι : Type} (l : List ι) (f g bound : ι → ℚ)
    (each : ∀ a ∈ l, |f a - g a| ≤ bound a) :
    |(l.map f).sum - (l.map g).sum| ≤ (l.map bound).sum := by
  induction l with
  | nil => simp
  | cons a rest ih =>
      have here := each a List.mem_cons_self
      have there := ih fun b member => each b (List.mem_cons_of_mem _ member)
      rw [List.map_cons, List.map_cons, List.map_cons, List.sum_cons, List.sum_cons, List.sum_cons,
        add_sub_add_comm]
      exact (abs_add_le _ _).trans (add_le_add here there)

/-- The remainders are apart by what the mix and the stems are apart by. -/
theorem rebuilt_within (audio : Audio ℚ) (stems : Stems ℚ)
    (distinct : (stems.shipped.map Prod.fst).Nodup) (c i : Nat) :
    |sampleAt (rebuilt audio.data (stems.shipped.map fun part => (part.1, received part.2))) c i -
      (stems.derivedPart (audio.mapSamples throughS16)).at c i| ≤
        loss audio + (stems.shipped.map fun stem => slack stem.2).sum := by
  have apart : ((stems.shipped.map fun part => (part.1, received part.2)).map Prod.fst).Nodup := by
    rw [List.map_map]
    exact distinct
  have close := sum_within stems.shipped (fun stem => sampleAt (received stem.2) c i)
    (fun stem => stem.2.at c i) (fun stem => slack stem.2) fun stem _ => received_within stem.2 c i
  have sent : (audio.mapSamples throughS16).sample? c i = (sample? audio.data c i).map throughS16 :=
    sample?_map throughS16 audio.data c i
  rw [sampleAt, rebuilt_eq, foldl_subtract, taken_of_nodup apart, Audio.at,
    Stems.derivedPart_sample?, sent, List.map_map, List.map_map]
  cases here : sample? audio.data c i with
  | none =>
      have total := (abs_nonneg _).trans close
      have lossPos : 0 ≤ loss audio := by
        unfold loss
        positivity
      simpa using add_nonneg lossPos total
  | some v =>
      have lost : |throughS16 v - v| ≤ loss audio := by
        refine (throughS16_within v).trans (add_le_add_right (max_le_max le_rfl ?_) _)
        exact sub_le_sub_right (le_peak here) 1
      simp only [Option.map_some, Option.getD_some, Function.comp_def]
      rw [sub_sub_sub_comm]
      refine (abs_sub _ _).trans (add_le_add ?_ close)
      rwa [abs_sub_comm]

def oneFrame : Audio ℚ := ⟨[[1], [-1]], 44100⟩

def halfVocals : Stems ℚ :=
  ⟨[("harmonics", ⟨[[0], [0]], 44100⟩), ("vocals", ⟨[[1 / 2], [-1 / 2]], 44100⟩)]⟩

def oneByteWire : Wire Unit where
  fetchStem url := .ok (if url = "harmonics" then [0] else [1])
  decodeFlac raw := .ok (if raw = [0] then [[0], [0]] else [[16384 / 32768], [-16384 / 32768]])

end Stemd.Client
