import Mathlib.Algebra.Order.Floor.Ring
import Mathlib.Data.Rat.Floor
import Mathlib.Tactic.Linarith
import Mathlib.Tactic.Positivity
import Stemd.Semantics.Rows

/-! Running a model over a whole track.

The track is cut into overlapping segments, each is separated on its own, and the results
are crossfaded: every piece is weighted with a triangle, and the sum is divided by the sum
of the weights at the end. Sample arithmetic is exact here. -/

set_option autoImplicit false

namespace Stemd.Mlx

open Stemd.Semantics

/-- A model that separates one fixed-length chunk of audio, batch by channel. -/
structure Chunked (B C K E : Type) where
  chunk : Int
  sources : Nat
  separateChunk : Rows (B × C) K → Except E (Rows (B × Fin sources × C) K)

inductive OverTrackError (K E : Type) where
  /-- `an overlap of {overlap} leaves no stride` -/
  | noStride (overlap : K)
  /-- `some samples were covered by no segment; overlap {overlap} is too small` -/
  | uncovered (overlap : K)
  /-- The caller refused to continue, or the model failed. -/
  | failed (error : E)
  /-- An array operation out of range, or the smallest of no weights. -/
  | array
  deriving DecidableEq, Repr

/-- Where one segment lies: how much of it the track has, which samples are read, what is
padded on either side of them, and what is trimmed off the model's output. -/
structure Window where
  take : Int
  start : Int
  first : Int
  last : Int
  padLeft : Int
  padRight : Int
  trim : Int
  deriving DecidableEq, Repr

/-- A short final segment is centred, with audio from before its offset pulled in. The source
counts in `i32`; with a track and a segment below `2 ^ 30` samples no sum here leaves it. -/
def window (segment length offset : Int) : Window :=
  let take := min segment (length - offset)
  let delta := segment - take
  -- Half of what is missing comes from before the offset.
  let start := offset - delta / 2
  let stop := start + segment
  let first := max start 0
  let last := min stop length
  { take, start, first, last, padLeft := first - start, padRight := stop - last, trim := delta / 2 }

/-- `(0..length).step_by(stride)` -/
def offsets (length stride : Int) : List Int :=
  (List.range ((length + stride - 1) / stride).toNat).map fun n : Nat => (n : Int) * stride

variable {B C K E : Type}

def required {α : Type} : Option α → Except (OverTrackError K E) α
  | some value => .ok value
  | none => .error .array

def chunkAt [Zero K] (mix : Rows (B × C) K) (w : Window) : Option (Rows (B × C) K) := do
  let chunk ← mix.index w.first w.last
  if 0 < w.padLeft ∨ 0 < w.padRight then chunk.pad w.padLeft w.padRight else return chunk

section

variable [Field K] [LinearOrder K]

/-- A triangle over one segment, normalised to a maximum of one. -/
def transitionWeight (segment : Int) : Option (Rows Unit K) :=
  let half := segment / 2
  let rising := (List.range half.toNat).map fun i => ((i + 1 : Nat) : K)
  let falling := (List.range (segment - half).toNat).reverse.map fun i => ((i + 1 : Nat) : K)
  let values := rising ++ falling
  if (values.length : Int) = segment then
    values.max?.map fun peak => ⟨values.length, fun _ => values.map (· / peak), fun _ => by simp⟩
  else none

structure Crossfade (B C K : Type) (sources : Nat) where
  out : Rows (B × Fin sources × C) K
  sumWeight : Rows Unit K

def addSegment (model : Chunked B C K E) (mix : Rows (B × C) K) (weight : Rows Unit K)
    (fade : Crossfade B C K model.sources) (offset : Int) :
    Except (OverTrackError K E) (Crossfade B C K model.sources) := do
  let w := window model.chunk mix.width offset
  let chunk ← required (chunkAt mix w)
  let separated ← (model.separateChunk chunk).mapError .failed
  -- Sample `trim` of the output is the one that belongs at the offset.
  let piece ← required (separated.index w.trim (w.trim + w.take))
  let ramp ← required (weight.index 0 w.take)
  let stop := offset + w.take
  -- Read the slice, add into it, write it back.
  let slice ← required (fade.out.index offset stop)
  let weighted ← required (piece.zipWith (· * ·) (ramp.reindex fun _ => ()))
  let added ← required (slice.zipWith (· + ·) weighted)
  let out ← required (fade.out.setIndex offset stop added)
  let covered ← required (fade.sumWeight.index offset stop)
  let added ← required (covered.zipWith (· + ·) ramp)
  let sumWeight ← required (fade.sumWeight.setIndex offset stop added)
  return ⟨out, sumWeight⟩

/-- The loop over the offsets, reporting before each. -/
def addSegments (model : Chunked B C K E) (mix : Rows (B × C) K) (weight : Rows Unit K)
    (progress : Nat → Nat → Except E Unit) (total : Nat) :
    Nat → Crossfade B C K model.sources → List Int →
      Except (OverTrackError K E) (Crossfade B C K model.sources)
  | _, fade, [] => .ok fade
  | done, fade, offset :: rest => do
      (progress done total).mapError .failed
      let fade ← addSegment model mix weight fade offset
      addSegments model mix weight progress total (done + 1) fade rest

/-- `((1.0 - overlap) * segment as f32) as i32` -/
def strideOf [FloorRing K] (overlap : K) (segment : Int) : Int :=
  let stride := (1 - overlap) * segment
  if 0 ≤ stride then ⌊stride⌋ else ⌈stride⌉

/-- One model over a whole track, chunk by chunk, crossfaded back together. -/
def overTrack [FloorRing K] (model : Chunked B C K E) (mix : Rows (B × C) K) (overlap : K)
    (progress : Nat → Nat → Except E Unit) :
    Except (OverTrackError K E) (Rows (B × Fin model.sources × C) K) := do
  let stride := strideOf overlap model.chunk
  if stride < 1 then throw (.noStride overlap)
  let weight ← required (transitionWeight model.chunk)
  let offsets := offsets mix.width stride
  let fade ← addSegments model mix weight progress offsets.length 0
    ⟨.zeros _ K mix.width, .zeros _ K mix.width⟩ offsets
  (progress offsets.length offsets.length).mapError .failed
  let smallest ← required (fade.sumWeight.row ()).min?
  if smallest ≤ 0 then throw (.uncovered overlap)
  required (fade.out.zipWith (· / ·) (fade.sumWeight.reindex fun _ => ()))

def identityModel (segment : Int) : Chunked B C K E where
  chunk := segment
  sources := 1
  separateChunk chunk := .ok (chunk.reindex fun name => (name.1, name.2.2))

end

theorem mem_offsets {length stride offset : Int} (positive : 1 ≤ stride) :
    offset ∈ offsets length stride ↔ ∃ n : Nat, offset = n * stride ∧ offset < length := by
  have count : ∀ n : Nat, n < ((length + stride - 1) / stride).toNat ↔ n * stride < length := by
    intro n
    rw [Int.lt_toNat, Int.lt_iff_add_one_le, Int.le_ediv_iff_mul_le (by omega), Int.add_mul]
    omega
  simp only [offsets, List.mem_map, List.mem_range, count]
  constructor
  · rintro ⟨n, below, rfl⟩
    exact ⟨n, rfl, below⟩
  · rintro ⟨n, rfl, below⟩
    exact ⟨n, below, rfl⟩

theorem offset_within {length stride offset : Int} (positive : 1 ≤ stride)
    (member : offset ∈ offsets length stride) : 0 ≤ offset ∧ offset < length := by
  obtain ⟨n, rfl, below⟩ := (mem_offsets positive).mp member
  exact ⟨Int.mul_nonneg (by omega) (by omega), below⟩

/-- Every amount is in range: what is read lies in the track, what is padded makes it up to a
segment, and what is trimmed leaves what is taken. -/
structure Window.InRange (w : Window) (segment length offset : Int) : Prop where
  reads : 0 ≤ w.first ∧ w.first ≤ w.last ∧ w.last ≤ length
  pads : 0 ≤ w.padLeft ∧ 0 ≤ w.padRight
  fills : w.padLeft + (w.last - w.first) + w.padRight = segment
  trims : 0 ≤ w.trim ∧ 0 < w.take ∧ w.trim + w.take ≤ segment
  writes : 0 ≤ offset ∧ offset + w.take ≤ length
  /-- What is left after the trim belongs at the offset. -/
  centred : w.first - w.padLeft + w.trim = offset
  /-- None of it is padding. -/
  heard : w.first ≤ offset ∧ offset + w.take ≤ w.last

theorem window_inRange {segment length offset : Int} (chunk : 1 ≤ segment) (low : 0 ≤ offset)
    (high : offset < length) : (window segment length offset).InRange segment length offset := by
  constructor <;> simp only [window] <;> omega

def InSegment (segment length offset t : Int) : Prop :=
  offset ≤ t ∧ t < offset + (window segment length offset).take

instance (segment length offset t : Int) : Decidable (InSegment segment length offset t) :=
  inferInstanceAs (Decidable (_ ∧ _))

theorem chunkAt_spec [Zero K] {mix : Rows (B × C) K} {segment offset : Int}
    (inRange : (window segment mix.width offset).InRange segment mix.width offset) :
    ∃ chunk, chunkAt mix (window segment mix.width offset) = some chunk ∧
      (chunk.width : Int) = segment ∧
      ∀ b c (t : Nat), InSegment segment mix.width offset t →
        chunk.sample (b, c) ((window segment mix.width offset).trim.toNat + (t - offset.toNat)) =
          mix.sample (b, c) t := by
  obtain ⟨⟨low, ordered, inside⟩, ⟨left, right⟩, fills, ⟨trim, some, -⟩, ⟨start, -⟩, centred,
    ⟨heard, heard'⟩⟩ := inRange
  unfold InSegment
  generalize window segment mix.width offset = w at *
  obtain ⟨cut, indexed, cutWidth, cutSample⟩ := Rows.index_spec low ordered inside
  obtain ⟨padded, pads, paddedWidth, paddedSample⟩ := cut.pad_spec left right
  by_cases pad : 0 < w.padLeft ∨ 0 < w.padRight
  · refine ⟨padded, by simp [chunkAt, indexed, pad, pads], by omega, fun b c t within => ?_⟩
    rw [paddedSample _ _ (by omega), cutSample _ _ (by omega)]
    congr 1
    omega
  · refine ⟨cut, by simp [chunkAt, indexed, pad], by omega, fun b c t within => ?_⟩
    rw [cutSample _ _ (by omega)]
    congr 1
    omega

theorem weighted_spec [Semiring K] {segment offset : Int} {mix : Rows (B × C) K}
    {weight : Rows Unit K}
    (inRange : (window segment mix.width offset).InRange segment mix.width offset)
    (wide : (weight.width : Int) = segment) :
    ∃ chunk piece ramp weighted,
      chunkAt mix (window segment mix.width offset) = some chunk ∧
      (chunk.reindex fun name : B × Fin 1 × C => (name.1, name.2.2)).index
        (window segment mix.width offset).trim ((window segment mix.width offset).trim +
          (window segment mix.width offset).take) = some piece ∧
      weight.index 0 (window segment mix.width offset).take = some ramp ∧
      piece.zipWith (· * ·) (ramp.reindex fun _ => ()) = some weighted ∧
      (ramp.width : Int) = (window segment mix.width offset).take ∧
      (weighted.width : Int) = (window segment mix.width offset).take ∧
      ∀ t : Nat, InSegment segment mix.width offset t →
        ramp.sample () (t - offset.toNat) = weight.sample () (t - offset.toNat) ∧
        ∀ b s c, weighted.sample (b, s, c) (t - offset.toNat) =
          mix.sample (b, c) t * weight.sample () (t - offset.toNat) := by
  obtain ⟨chunk, handed, chunkWidth, chunkSample⟩ := chunkAt_spec inRange
  obtain ⟨-, -, -, ⟨trim, some, trimmed⟩, ⟨start, -⟩, -, -⟩ := inRange
  have inSegment (t : Nat) : InSegment segment mix.width offset t ↔
      offset ≤ t ∧ t < offset + (window segment mix.width offset).take := Iff.rfl
  generalize (window segment mix.width offset).take = take at *
  generalize (window segment mix.width offset).trim = cut at *
  obtain ⟨piece, pieceIs, pieceWidth, pieceSample⟩ :=
    Rows.index_spec (x := chunk.reindex fun name : B × Fin 1 × C => (name.1, name.2.2)) trim
      (show cut ≤ cut + take by omega) (show cut + take ≤ chunk.width by omega)
  obtain ⟨ramp, rampIs, rampWidth, rampSample⟩ :=
    Rows.index_spec (x := weight) (le_refl 0) some.le (by omega)
  obtain ⟨weighted, weightedIs, weightedWidth, weightedSample⟩ :=
    Rows.zipWith_spec (· * ·) (x := piece) (y := ramp.reindex fun _ => ())
      (show piece.width = ramp.width by omega)
  refine ⟨chunk, piece, ramp, weighted, handed, pieceIs, rampIs, weightedIs, by omega, by omega,
    fun t within => ?_⟩
  have here := (inSegment t).mp within
  have rampWeight : ramp.sample () (t - offset.toNat) = weight.sample () (t - offset.toNat) := by
    rw [rampSample _ _ (by omega)]
    congr 1
    omega
  refine ⟨rampWeight, fun b s c => ?_⟩
  rw [weightedSample _ _ (by omega), pieceSample _ _ (by omega), Rows.reindex_sample,
    Rows.reindex_sample, rampWeight, chunkSample b c t within]

section

variable [Field K] [LinearOrder K]

theorem transitionWeight_spec [IsStrictOrderedRing K] {segment : Int} (chunk : 1 ≤ segment) :
    ∃ weight : Rows Unit K, transitionWeight segment = some weight ∧
      (weight.width : Int) = segment ∧ ∀ t : Nat, t < segment → 0 < weight.sample () t := by
  let half := segment / 2
  let rising := (List.range half.toNat).map fun i => ((i + 1 : Nat) : K)
  let falling := (List.range (segment - half).toNat).reverse.map fun i => ((i + 1 : Nat) : K)
  have length : ((rising ++ falling).length : Int) = segment := by
    simp only [rising, falling, half, List.length_append, List.length_map, List.length_range,
      List.length_reverse]
    omega
  have positive : ∀ value ∈ rising ++ falling, 0 < value := by
    intro value member
    have counted : ∃ i : Nat, ((i + 1 : Nat) : K) = value := by
      rcases List.mem_append.mp member with up | down
      · obtain ⟨i, -, rfl⟩ := List.mem_map.mp up
        exact ⟨i, rfl⟩
      · obtain ⟨i, -, rfl⟩ := List.mem_map.mp down
        exact ⟨i, rfl⟩
    obtain ⟨i, rfl⟩ := counted
    exact Nat.cast_pos.mpr (Nat.succ_pos i)
  have peak : ∃ peak, (rising ++ falling).max? = some peak ∧ 0 < peak := by
    cases found : (rising ++ falling).max? with
    | none =>
        rw [List.max?_eq_none_iff.mp found] at length
        simp only [List.length_nil, Nat.cast_zero] at length
        omega
    | some peak => exact ⟨peak, rfl, positive peak (List.max?_mem found)⟩
  obtain ⟨peak, found, above⟩ := peak
  refine ⟨⟨(rising ++ falling).length, fun _ => (rising ++ falling).map (· / peak), by simp⟩, ?_,
    length, fun t below => ?_⟩
  · change (if _ then _ else _) = _
    rw [if_pos length]
    exact congrArg (Option.map _) found
  · have inside : t < ((rising ++ falling).map (· / peak)).length := by
      rw [List.length_map]
      omega
    rw [Rows.sample, List.getD_eq_getElem _ _ inside, List.getElem_map]
    exact div_pos (positive _ (List.getElem_mem _)) above

/-- The weighted sum is the mix by the sum of the weights, which is zero where no segment has
been and positive elsewhere. -/
structure Blended (segment : Int) (mix : Rows (B × C) K) (fade : Crossfade B C K 1)
    (seen : List Int) : Prop where
  outWidth : fade.out.width = mix.width
  sumWidth : fade.sumWeight.width = mix.width
  blend : ∀ b s c t, t < mix.width →
    fade.out.sample (b, s, c) t = mix.sample (b, c) t * fade.sumWeight.sample () t
  heard : ∀ t < mix.width, (∃ offset ∈ seen, InSegment segment mix.width offset t) →
    0 < fade.sumWeight.sample () t
  unheard : ∀ t < mix.width, (∀ offset ∈ seen, ¬ InSegment segment mix.width offset t) →
    fade.sumWeight.sample () t = 0

theorem Blended.nonneg {segment : Int} {mix : Rows (B × C) K} {fade : Crossfade B C K 1}
    {seen : List Int} (blended : Blended segment mix fade seen) {t : Nat} (inside : t < mix.width) :
    0 ≤ fade.sumWeight.sample () t := by
  by_cases heard : ∃ offset ∈ seen, InSegment segment mix.width offset t
  · exact (blended.heard t inside heard).le
  · refine (blended.unheard t inside fun offset member within => heard ?_).ge
    exact ⟨offset, member, within⟩

theorem zeros_blended (segment : Int) (mix : Rows (B × C) K) :
    Blended segment mix ⟨.zeros _ K mix.width, .zeros _ K mix.width⟩ [] where
  outWidth := rfl
  sumWidth := rfl
  blend _ _ _ _ _ := by simp
  heard _ _ none := by simp at none
  unheard _ _ _ := Rows.zeros_sample _ _ _

theorem Blended.add [IsStrictOrderedRing K] {segment offset : Int} {mix : Rows (B × C) K}
    {fade fade' : Crossfade B C K 1} {seen : List Int}
    (blended : Blended segment mix fade seen) (weight : Nat → K)
    (outWidth : fade'.out.width = fade.out.width)
    (sumWidth : fade'.sumWeight.width = fade.sumWeight.width)
    (positive : ∀ t : Nat, InSegment segment mix.width offset t → 0 < weight t)
    (outSample : ∀ b s c t, fade'.out.sample (b, s, c) t =
      if InSegment segment mix.width offset t then
        fade.out.sample (b, s, c) t + mix.sample (b, c) t * weight t
      else fade.out.sample (b, s, c) t)
    (sumSample : ∀ t, fade'.sumWeight.sample () t =
      if InSegment segment mix.width offset t then fade.sumWeight.sample () t + weight t
      else fade.sumWeight.sample () t) : Blended segment mix fade' (seen ++ [offset]) := by
  constructor
  · exact outWidth.trans blended.outWidth
  · exact sumWidth.trans blended.sumWidth
  · intro b s c t inside
    rw [outSample, sumSample]
    split
    · rw [blended.blend b s c t inside, mul_add]
    · exact blended.blend b s c t inside
  · intro t inside heard
    rw [sumSample]
    split
    · rename_i here
      linarith [blended.nonneg inside, positive t here]
    · rename_i elsewhere
      obtain ⟨other, member, within⟩ := heard
      rcases List.mem_append.mp member with old | new
      · exact blended.heard t inside ⟨other, old, within⟩
      · obtain rfl := List.mem_singleton.mp new
        exact absurd within elsewhere
  · intro t inside unheard
    rw [sumSample, if_neg (unheard offset (by simp))]
    exact blended.unheard t inside fun other member =>
      unheard other (List.mem_append_left _ member)

theorem addSegment_identity [IsStrictOrderedRing K] {segment offset : Int} {mix : Rows (B × C) K}
    {weight : Rows Unit K} {fade : Crossfade B C K 1} {seen : List Int}
    (blended : Blended segment mix fade seen)
    (inRange : (window segment mix.width offset).InRange segment mix.width offset)
    (wide : (weight.width : Int) = segment)
    (positive : ∀ t : Nat, t < segment → 0 < weight.sample () t) :
    ∃ fade', addSegment (E := E) (identityModel segment) mix weight fade offset = .ok fade' ∧
      Blended segment mix fade' (seen ++ [offset]) := by
  obtain ⟨chunk, piece, ramp, weighted, handed, pieceIs, rampIs, weightedIs, rampWidth,
    weightedWidth, samples⟩ := weighted_spec inRange wide
  obtain ⟨-, -, -, ⟨trim, some, trimmed⟩, ⟨start, written⟩, -, -⟩ := inRange
  have outWidth := blended.outWidth
  have sumWidth := blended.sumWidth
  obtain ⟨slice, added, out, sliceIs, addedIs, outIs, outWide, outSample⟩ :=
    Rows.accumulate_spec (x := fade.out) (y := weighted) start
      (show offset ≤ offset + (window segment mix.width offset).take by omega) (by omega)
      (by omega)
  obtain ⟨covered, sum, sumWeight, coveredIs, sumIs, sumWeightIs, sumWide, sumSample⟩ :=
    Rows.accumulate_spec (x := fade.sumWeight) (y := ramp) start
      (show offset ≤ offset + (window segment mix.width offset).take by omega) (by omega)
      (by omega)
  refine ⟨⟨out, sumWeight⟩, ?_, ?_⟩
  · simp only [addSegment, identityModel, handed, required, Except.mapError, bind, Except.bind,
      pieceIs, rampIs, sliceIs, weightedIs, addedIs, outIs, coveredIs, sumIs, sumWeightIs, pure,
      Except.pure]
  refine blended.add (fun t => weight.sample () (t - offset.toNat)) outWide sumWide
    (fun t within => positive _ ?_) (fun b s c t => ?_) fun t => ?_
  · unfold InSegment at within
    omega
  · rw [outSample]
    by_cases within : InSegment segment mix.width offset t
    · rw [if_pos within, ← (samples t within).2 b s c]
      exact if_pos within
    · rw [if_neg within]
      exact if_neg within
  · rw [sumSample]
    by_cases within : InSegment segment mix.width offset t
    · rw [if_pos within, ← (samples t within).1]
      exact if_pos within
    · rw [if_neg within]
      exact if_neg within

theorem addSegments_identity [IsStrictOrderedRing K] {segment : Int} {mix : Rows (B × C) K}
    {weight : Rows Unit K} {progress : Nat → Nat → Except E Unit} {total : Nat}
    (wide : (weight.width : Int) = segment)
    (positive : ∀ t : Nat, t < segment → 0 < weight.sample () t)
    (goesOn : ∀ done ≤ total, progress done total = .ok ()) (rest : List Int) (done : Nat)
    (count : done + rest.length ≤ total) {fade : Crossfade B C K 1} {seen : List Int}
    (blended : Blended segment mix fade seen)
    (inRange : ∀ offset ∈ rest,
      (window segment mix.width offset).InRange segment mix.width offset) :
    ∃ fade', addSegments (identityModel segment) mix weight progress total done fade rest =
        .ok fade' ∧ Blended segment mix fade' (seen ++ rest) := by
  induction rest generalizing done fade seen with
  | nil => exact ⟨fade, rfl, by simpa using blended⟩
  | cons offset rest ih =>
      rw [List.length_cons] at count
      obtain ⟨next, added, blended⟩ := addSegment_identity (E := E) blended
        (inRange offset List.mem_cons_self) wide positive
      obtain ⟨fade', ran, blended⟩ := ih (done + 1) (by omega) blended
        fun offset member => inRange offset (List.mem_cons_of_mem _ member)
      refine ⟨fade', ?_, by simpa using blended⟩
      have reported := goesOn done (by omega)
      simp only [identityModel] at added ran ⊢
      simp only [addSegments, reported, Except.mapError, bind, Except.bind, added, ran]

def AllHeard (segment length : Int) (offsets : List Int) : Prop :=
  ∀ t : Nat, t < length → ∃ offset ∈ offsets, InSegment segment length offset t

theorem allHeard_of_le {segment length stride : Int} (positive : 1 ≤ stride)
    (overlapping : stride ≤ segment) : AllHeard segment length (offsets length stride) := by
  intro t inside
  have split := Int.mul_ediv_add_emod t stride
  have low := Int.emod_nonneg t (show stride ≠ 0 by omega)
  have high := Int.emod_lt_of_pos t (show 0 < stride by omega)
  have place : (((t : Int) / stride).toNat : Int) = t / stride :=
    Int.toNat_of_nonneg (Int.ediv_nonneg (by omega) (by omega))
  rw [Int.mul_comm] at split
  refine ⟨(t : Int) / stride * stride, (mem_offsets positive).mpr
    ⟨((t : Int) / stride).toNat, by rw [place], by omega⟩, by omega, ?_⟩
  simp only [window]
  omega

theorem smallest_spec {segment : Int} {mix : Rows (B × C) K} {fade : Crossfade B C K 1}
    {seen : List Int} (track : 1 ≤ mix.width) (blended : Blended segment mix fade seen) :
    ∃ smallest, (fade.sumWeight.row ()).min? = some smallest ∧
      (smallest ≤ 0 ↔ ¬ AllHeard segment mix.width seen) := by
  have length : (fade.sumWeight.row ()).length = mix.width := by
    rw [fade.sumWeight.shape, blended.sumWidth]
  cases found : (fade.sumWeight.row ()).min? with
  | none =>
      rw [List.min?_eq_none_iff.mp found, List.length_nil] at length
      omega
  | some smallest =>
      refine ⟨smallest, rfl, fun low all => ?_, fun leftOut => ?_⟩
      · obtain ⟨t, inside, here⟩ := List.mem_iff_getElem.mp (List.min?_mem found)
        have sample : fade.sumWeight.sample () t = smallest := by
          rw [Rows.sample, List.getD_eq_getElem _ _ inside, here]
        have heard := blended.heard t (length ▸ inside) (all t (by omega))
        rw [sample] at heard
        exact absurd heard (not_lt.mpr low)
      · simp only [AllHeard, not_forall, not_exists, not_and] at leftOut
        obtain ⟨t, inside, unheard⟩ := leftOut
        have inside : t < mix.width := by omega
        have zero := blended.unheard t inside unheard
        have bound : t < (fade.sumWeight.row ()).length := by rwa [length]
        rw [Rows.sample, List.getD_eq_getElem _ _ bound] at zero
        rw [← zero]
        exact (List.le_min?_iff found).mp le_rfl _ (List.getElem_mem bound)

theorem Blended.quotient_eq {segment : Int} {mix : Rows (B × C) K} {fade : Crossfade B C K 1}
    {seen : List Int} {quotient : Rows (B × Fin 1 × C) K} (blended : Blended segment mix fade seen)
    (all : AllHeard segment mix.width seen)
    (divided : fade.out.zipWith (· / ·) (fade.sumWeight.reindex fun _ => ()) = some quotient) :
    quotient = mix.reindex fun name => (name.1, name.2.2) := by
  have widths : fade.out.width = (fade.sumWeight.reindex fun _ : B × Fin 1 × C => ()).width :=
    blended.outWidth.trans blended.sumWidth.symm
  obtain ⟨other, again, width, sample⟩ := Rows.zipWith_spec (· / ·) widths
  obtain rfl := Option.some.inj (again.symm.trans divided)
  refine Rows.ext_sample (width.trans blended.outWidth) fun name t below => ?_
  obtain ⟨b, s, c⟩ := name
  have inside : t < mix.width := by rwa [width, blended.outWidth] at below
  have heard := blended.heard t inside (all t (by omega))
  rw [sample _ _ (width ▸ below), blended.blend b s c t inside, Rows.reindex_sample,
    Rows.reindex_sample]
  exact mul_div_cancel_right₀ _ heard.ne'

section

variable [FloorRing K]

theorem strideOf_surjective [IsStrictOrderedRing K] {segment stride : Int} (chunk : 1 ≤ segment) :
    strideOf (1 - stride / segment : K) segment = stride := by
  have nonzero : (segment : K) ≠ 0 := by
    have positive : segment ≠ 0 := by omega
    exact_mod_cast positive
  have product : (1 - (1 - stride / segment : K)) * segment = stride := by
    rw [sub_sub_cancel, div_mul_cancel₀ _ nonzero]
  simp only [strideOf, product]
  split
  · exact Int.floor_intCast _
  · exact Int.ceil_intCast _

/-- A run of the whole loop, and what is made of it. -/
theorem overTrack_eq {model : Chunked B C K E} {mix : Rows (B × C) K} {overlap : K}
    {progress : Nat → Nat → Except E Unit} {stride : Int} {weight : Rows Unit K}
    {fade : Crossfade B C K model.sources} {smallest : K}
    {quotient : Rows (B × Fin model.sources × C) K}
    (chosen : strideOf overlap model.chunk = stride) (positive : 1 ≤ stride)
    (weightIs : transitionWeight model.chunk = some weight)
    (ran : addSegments model mix weight progress (offsets mix.width stride).length 0
      ⟨.zeros _ K mix.width, .zeros _ K mix.width⟩ (offsets mix.width stride) = .ok fade)
    (reported : progress (offsets mix.width stride).length (offsets mix.width stride).length =
      .ok ())
    (found : (fade.sumWeight.row ()).min? = some smallest)
    (divided : fade.out.zipWith (· / ·) (fade.sumWeight.reindex fun _ => ()) = some quotient) :
    overTrack model mix overlap progress =
      if smallest ≤ 0 then .error (.uncovered overlap) else .ok quotient := by
  have enough : ¬ stride < 1 := by omega
  simp only [overTrack, chosen, if_neg enough, weightIs, required, ran, reported, found, divided,
    bind, Except.bind, Except.mapError, throw, throwThe, MonadExceptOf.throw]

/-- Over a track, the crossfade of an unchanged mix is the mix, unless a sample is in no
segment, which a stride beyond the segment can bring about. All amounts are in range on the
way, and what the model is handed is a segment long. -/
theorem overTrack_identity [IsStrictOrderedRing K] (mix : Rows (B × C) K)
    (segment stride : Int) (overlap : K)
    (progress : Nat → Nat → Except E Unit) (track : 1 ≤ mix.width) (chunk : 1 ≤ segment)
    (positive : 1 ≤ stride) (chosen : strideOf overlap segment = stride)
    (goesOn : ∀ done ≤ (offsets mix.width stride).length,
      progress done (offsets mix.width stride).length = .ok ()) :
    (∀ offset ∈ offsets mix.width stride,
      (window segment mix.width offset).InRange segment mix.width offset ∧
      ∃ handed, chunkAt mix (window segment mix.width offset) = some handed ∧
        (handed.width : Int) = segment) ∧
    (AllHeard segment mix.width (offsets mix.width stride) →
      overTrack (identityModel segment) mix overlap progress =
        .ok (mix.reindex fun name => (name.1, name.2.2))) ∧
    (¬ AllHeard segment mix.width (offsets mix.width stride) →
      overTrack (identityModel segment) mix overlap progress = .error (.uncovered overlap) ∧
        segment < stride) := by
  have inRange : ∀ offset ∈ offsets mix.width stride,
      (window segment mix.width offset).InRange segment mix.width offset := by
    intro offset member
    obtain ⟨low, high⟩ := offset_within positive member
    exact window_inRange chunk low high
  obtain ⟨weight, weightIs, wide, above⟩ := transitionWeight_spec (K := K) chunk
  obtain ⟨fade, ran, blended⟩ := addSegments_identity wide above goesOn
    (offsets mix.width stride) 0 (by omega) (zeros_blended segment mix) inRange
  obtain ⟨smallest, found, leftOut⟩ := smallest_spec track blended
  obtain ⟨quotient, divided, -, -⟩ := Rows.zipWith_spec (· / ·) (x := fade.out)
    (y := fade.sumWeight.reindex fun _ => ())
    (show fade.out.width = fade.sumWeight.width by rw [blended.outWidth, blended.sumWidth])
  have result : overTrack (identityModel segment) mix overlap progress =
      if smallest ≤ 0 then .error (.uncovered overlap) else .ok quotient :=
    overTrack_eq chosen positive weightIs ran (goesOn _ le_rfl) found divided
  rw [List.nil_append] at leftOut blended
  refine ⟨fun offset member => ⟨inRange offset member, ?_⟩, fun all => ?_, fun some => ?_⟩
  · obtain ⟨handed, handedIs, handedWidth, -⟩ := chunkAt_spec (inRange offset member)
    exact ⟨handed, handedIs, handedWidth⟩
  · have covered : ¬ smallest ≤ 0 := fun low => leftOut.mp low all
    rw [result, if_neg covered]
    exact congrArg Except.ok (blended.quotient_eq all divided)
  · refine ⟨by rw [result, if_pos (leftOut.mpr some)], ?_⟩
    by_contra overlapping
    exact some (allHeard_of_le positive (by omega))

def shortTrack : Rows (Unit × Unit) ℚ := ⟨3, fun _ => [1, 2, 3], fun _ => rfl⟩

/-- In segments of two that overlap by one. -/
theorem short_track_is_given_back :
    overTrack (identityModel (E := Unit) 2) shortTrack (1 / 2) (fun _ _ => .ok ()) =
      .ok (shortTrack.reindex fun name => (name.1, name.2.2)) := by
  have half : strideOf (1 / 2 : ℚ) 2 = 1 := by decide +kernel
  refine (overTrack_identity (E := Unit) shortTrack 2 1 (1 / 2) (fun _ _ => .ok ()) (by decide)
    (by decide) (by decide) half fun _ _ => rfl).2.1 ?_
  exact allHeard_of_le (by decide) (by decide)

end

end

end Stemd.Mlx
