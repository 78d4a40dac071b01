import Stemd.Mlx.OverTrack
import Stemd.Semantics.WeightedMean

/-! What a track comes to, whatever the model.

Each sample of the result is a mean of what the segments around it say of it, and each segment
counts for as much as the sample lies away from the segment's nearer end. What a segment says
depends on the track within one segment's length, and on nothing further away. -/

set_option autoImplicit false

namespace Stemd.Mlx

open Stemd.Semantics

section

variable {B C K E : Type} [Zero K]

/-- The model takes every chunk of its length, and gives as many samples back. -/
structure Chunked.Takes (model : Chunked B C K E) : Prop where
  chunk : 1 ≤ model.chunk
  answers : ∀ chunk : Rows (B × C) K, (chunk.width : Int) = model.chunk →
    ∃ y, model.separateChunk chunk = .ok y ∧ y.width = chunk.width

def separated (model : Chunked B C K E) (mix : Rows (B × C) K) (offset : Int) :
    Option (Rows (B × Fin model.sources × C) K) := do
  let chunk ← chunkAt mix (window model.chunk mix.width offset)
  (model.separateChunk chunk).toOption

def said (model : Chunked B C K E) (mix : Rows (B × C) K) (name : B × Fin model.sources × C)
    (t : Nat) (offset : Int) : K :=
  let w := window model.chunk mix.width offset
  ((separated model mix offset).map (·.sample name (w.trim.toNat + (t - offset.toNat)))).getD 0

def nearness (segment : Int) (t : Nat) (offset : Int) : Int :=
  min (t - offset + 1) (offset + segment - t)

def around (segment length : Int) (seen : List Int) (t : Nat) : List Int :=
  seen.filter fun offset => InSegment segment length offset t

theorem mem_around {segment length : Int} {seen : List Int} {t : Nat} {offset : Int} :
    offset ∈ around segment length seen t ↔
      offset ∈ seen ∧ InSegment segment length offset t := by
  rw [around, List.mem_filter, decide_eq_true_iff]

theorem InSegment.bounds {segment length offset : Int} {t : Nat}
    (within : InSegment segment length offset t) :
    offset ≤ t ∧ t < offset + segment ∧ t < length := by
  unfold InSegment window at within
  dsimp only at within
  omega

theorem nearness_pos {segment length offset : Int} {t : Nat}
    (within : InSegment segment length offset t) : 0 < nearness segment t offset := by
  obtain ⟨low, high, -⟩ := within.bounds
  unfold nearness
  omega

theorem chunkAt_sample {mix : Rows (B × C) K} {segment offset : Int} (positive : 1 ≤ segment)
    (low : 0 ≤ offset) (high : offset < mix.width) :
    ∃ chunk, chunkAt mix (window segment mix.width offset) = some chunk ∧
      (chunk.width : Int) = segment ∧
      ∀ i (j : Nat), j < segment →
        let place := offset - (window segment mix.width offset).trim + j
        chunk.sample i j =
          if 0 ≤ place ∧ place < mix.width then mix.sample i place.toNat else 0 := by
  obtain ⟨⟨first, ordered, inside⟩, ⟨left, right⟩, fills, -, -, -, -⟩ :=
    window_inRange positive low high
  -- What is padded on a side is what the track does not have there.
  have starts : (window segment mix.width offset).first -
      (window segment mix.width offset).padLeft =
        offset - (window segment mix.width offset).trim := by
    simp only [window]
    omega
  have before : 0 < (window segment mix.width offset).padLeft →
      (window segment mix.width offset).first = 0 := by
    simp only [window]
    omega
  have after : 0 < (window segment mix.width offset).padRight →
      (window segment mix.width offset).last = mix.width := by
    simp only [window]
    omega
  generalize window segment mix.width offset = w at *
  obtain ⟨cut, indexed, cutWidth, cutSample⟩ := Rows.index_spec first ordered inside
  obtain ⟨padded, pads, paddedWidth, paddedSample⟩ := cut.pad_spec left right
  by_cases pad : 0 < w.padLeft ∨ 0 < w.padRight
  · refine ⟨padded, by simp [chunkAt, indexed, pad, pads], by omega, fun i j below => ?_⟩
    dsimp only
    by_cases early : (j : Int) < w.padLeft
    · rw [Rows.pad_before pads i early, if_neg (by omega)]
    rw [paddedSample i j (by omega)]
    by_cases late : w.padLeft + cut.width ≤ j
    · rw [Rows.sample_beyond i (by omega), if_neg (by omega)]
    · rw [cutSample i _ (by omega), if_pos (by omega)]
      congr 1
      omega
  · refine ⟨cut, by simp [chunkAt, indexed, pad], by omega, fun i j below => ?_⟩
    dsimp only
    rw [cutSample i j (by omega), if_pos (by omega)]
    congr 1
    omega

theorem said_congr {model : Chunked B C K E} {mix mix' : Rows (B × C) K} {t : Nat} {offset : Int}
    (takes : model.Takes) (low : 0 ≤ offset) (width : mix'.width = mix.width)
    (within : InSegment model.chunk mix.width offset t)
    (agree : ∀ i (p : Nat), p < mix.width → (p : Int) < t + model.chunk →
      (t : Int) < p + model.chunk → mix'.sample i p = mix.sample i p)
    (name : B × Fin model.sources × C) :
    said model mix' name t offset = said model mix name t offset := by
  obtain ⟨start, stop, inside⟩ := within.bounds
  obtain ⟨chunk, handed, wide, sample⟩ := chunkAt_sample takes.chunk low (show offset < mix.width by
    omega)
  obtain ⟨chunk', handed', wide', sample'⟩ := chunkAt_sample takes.chunk low
    (show offset < mix'.width by omega)
  rw [width] at handed' sample'
  -- The chunk begins no further before the offset than it lacks after it.
  have trimmed : 0 ≤ (window model.chunk mix.width offset).trim ∧
      t + (window model.chunk mix.width offset).trim < offset + model.chunk := by
    unfold InSegment at within
    simp only [window] at within ⊢
    omega
  have same : chunk' = chunk := by
    refine Rows.ext_sample (by omega) fun i j below => ?_
    rw [sample i j (by omega), sample' i j (by omega)]
    split
    · next place => exact agree i _ (by omega) (by omega) (by omega)
    · rfl
  unfold said separated
  rw [width, handed, handed', same]

end

section

variable {B C K E : Type} [Field K]

theorem triangle_entry {half rest j : Nat} (below : j < half + rest) :
    ((List.range half).map (fun i => ((i + 1 : Nat) : K)) ++
      (List.range rest).reverse.map fun i => ((i + 1 : Nat) : K))[j]? =
        some ((if j < half then j + 1 else half + rest - j : Nat) : K) := by
  rw [List.getElem?_append, List.length_map, List.length_range]
  split
  · next rising => rw [List.getElem?_map, List.getElem?_range rising, Option.map_some]
  · next falling =>
    have inside : j - half < (List.range rest).length := by
      rw [List.length_range]
      omega
    rw [List.getElem?_map, List.getElem?_reverse inside, List.length_range,
      List.getElem?_range (by omega), Option.map_some]
    congr 2
    omega

theorem around_snoc (segment length : Int) (seen : List Int) (offset : Int) (t : Nat) :
    around segment length (seen ++ [offset]) t = around segment length seen t ++
      if InSegment segment length offset t then [offset] else [] := by
  rw [around, around, List.filter_append, List.filter_singleton]
  by_cases within : InSegment segment length offset t
  · rw [decide_eq_true within, if_pos within, cond_true]
  · rw [decide_eq_false within, if_neg within, cond_false]

structure Accumulated (model : Chunked B C K E) (mix : Rows (B × C) K) (unit : K)
    (fade : Crossfade B C K model.sources) (seen : List Int) : Prop where
  outWidth : fade.out.width = mix.width
  sumWidth : fade.sumWeight.width = mix.width
  out : ∀ name t, t < mix.width → fade.out.sample name t =
    weightSum (fun offset => said model mix name t offset *
      (unit * (nearness model.chunk t offset : K))) (around model.chunk mix.width seen t)
  sum : ∀ t, t < mix.width → fade.sumWeight.sample () t =
    weightSum (fun offset => unit * (nearness model.chunk t offset : K))
      (around model.chunk mix.width seen t)

/-- A turn of the loop succeeds, and adds to both sums what its segment says. -/
theorem addSegment_sums {model : Chunked B C K E} {mix : Rows (B × C) K} {weight : Rows Unit K}
    {unit : K} {fade : Crossfade B C K model.sources} {seen : List Int} {offset : Int}
    (takes : model.Takes) (low : 0 ≤ offset) (high : offset < mix.width)
    (wide : (weight.width : Int) = model.chunk)
    (triangle : ∀ t : Nat, offset ≤ t → t < offset + model.chunk →
      weight.sample () (t - offset.toNat) = unit * (nearness model.chunk t offset : K))
    (summed : Accumulated model mix unit fade seen) :
    ∃ fade', addSegment model mix weight fade offset = .ok fade' ∧
      Accumulated model mix unit fade' (seen ++ [offset]) := by
  obtain ⟨-, -, -, ⟨trim, some, trimmed⟩, ⟨-, written⟩, -, -⟩ :=
    window_inRange takes.chunk low high
  obtain ⟨chunk, handed, chunkWidth, -⟩ := chunkAt_sample takes.chunk low high
  obtain ⟨y, answered, yWidth⟩ := takes.answers chunk chunkWidth
  have outWidth := summed.outWidth
  have sumWidth := summed.sumWidth
  have inSegment (t : Nat) : InSegment model.chunk mix.width offset t ↔
      offset ≤ t ∧ t < offset + (window model.chunk mix.width offset).take := Iff.rfl
  have spoken (name : B × Fin model.sources × C) (t : Nat) : said model mix name t offset =
      y.sample name ((window model.chunk mix.width offset).trim.toNat + (t - offset.toNat)) := by
    unfold said separated
    rw [handed]
    change (((model.separateChunk chunk).toOption).map _).getD 0 = _
    rw [answered]
    rfl
  -- From here on only what lies where matters.
  obtain ⟨piece, pieceIs, pieceWidth, pieceSample⟩ :=
    Rows.index_spec (x := y) trim (show (window model.chunk mix.width offset).trim ≤
      (window model.chunk mix.width offset).trim + (window model.chunk mix.width offset).take by
        omega) (by omega)
  obtain ⟨ramp, rampIs, rampWidth, rampSample⟩ :=
    Rows.index_spec (x := weight) (le_refl 0) some.le (by omega)
  obtain ⟨weighted, weightedIs, weightedWidth, weightedSample⟩ :=
    Rows.zipWith_spec (· * ·) (x := piece)
      (y := ramp.reindex fun _ : B × Fin model.sources × C => ())
      (show piece.width = ramp.width by omega)
  obtain ⟨slice, added, out, sliceIs, addedIs, outIs, outWide, outSample⟩ :=
    Rows.accumulate_spec (x := fade.out) (y := weighted) low
      (show offset ≤ offset + (window model.chunk mix.width offset).take by omega) (by omega)
      (by omega)
  obtain ⟨covered, sum, sumWeight, coveredIs, sumIs, sumWeightIs, sumWide, sumSample⟩ :=
    Rows.accumulate_spec (x := fade.sumWeight) (y := ramp) low
      (show offset ≤ offset + (window model.chunk mix.width offset).take by omega) (by omega)
      (by omega)
  have rampAt (t : Nat) (within : InSegment model.chunk mix.width offset t) :
      ramp.sample () (t - offset.toNat) = unit * (nearness model.chunk t offset : K) := by
    obtain ⟨start, stop, -⟩ := within.bounds
    have inside := (inSegment t).mp within
    rw [rampSample _ _ (by omega), ← triangle t start stop, Int.toNat_zero, Nat.zero_add]
  have weightedAt (name : B × Fin model.sources × C) (t : Nat)
      (within : InSegment model.chunk mix.width offset t) :
      weighted.sample name (t - offset.toNat) =
        said model mix name t offset * (unit * (nearness model.chunk t offset : K)) := by
    have inside := (inSegment t).mp within
    rw [weightedSample _ _ (by omega), pieceSample _ _ (by omega), Rows.reindex_sample,
      rampAt t within, spoken]
  refine ⟨⟨out, sumWeight⟩, ?_, outWide.trans outWidth, sumWide.trans sumWidth,
    fun name t inside => ?_, fun t inside => ?_⟩
  · simp only [addSegment, handed, required, answered, Except.mapError, bind, Except.bind,
      pieceIs, rampIs, sliceIs, weightedIs, addedIs, outIs, coveredIs, sumIs, sumWeightIs, pure,
      Except.pure]
  · rw [around_snoc, weightSum_append, ← summed.out name t inside, outSample]
    by_cases within : InSegment model.chunk mix.width offset t
    · rw [if_pos within, weightSum_singleton, ← weightedAt name t within]
      exact if_pos within
    · rw [if_neg within, weightSum_nil, add_zero]
      exact if_neg within
  · rw [around_snoc, weightSum_append, ← summed.sum t inside, sumSample]
    by_cases within : InSegment model.chunk mix.width offset t
    · rw [if_pos within, weightSum_singleton, ← rampAt t within]
      exact if_pos within
    · rw [if_neg within, weightSum_nil, add_zero]
      exact if_neg within

theorem addSegments_sums {model : Chunked B C K E} {mix : Rows (B × C) K} {weight : Rows Unit K}
    {unit : K} (progress : Nat → Nat → Except E Unit) {total : Nat} (takes : model.Takes)
    (wide : (weight.width : Int) = model.chunk)
    (triangle : ∀ (offset : Int) (t : Nat), 0 ≤ offset → offset ≤ t → t < offset + model.chunk →
      weight.sample () (t - offset.toNat) = unit * (nearness model.chunk t offset : K))
    (rest : List Int) (done : Nat) (count : done + rest.length ≤ total)
    {fade : Crossfade B C K model.sources} {seen : List Int}
    (summed : Accumulated model mix unit fade seen)
    (inTrack : ∀ offset ∈ rest, 0 ≤ offset ∧ offset < mix.width) :
    (∃ fade', addSegments model mix weight progress total done fade rest = .ok fade' ∧
      Accumulated model mix unit fade' (seen ++ rest)) ∨
    ∃ d e, d ≤ total ∧ progress d total = .error e ∧
      addSegments model mix weight progress total done fade rest = .error (.failed e) := by
  induction rest generalizing done fade seen with
  | nil => exact .inl ⟨fade, rfl, by rwa [List.append_nil]⟩
  | cons offset rest ih =>
      rw [List.length_cons] at count
      cases reported : progress done total with
      | error e =>
          refine .inr ⟨done, e, by omega, reported, ?_⟩
          simp only [addSegments, reported, Except.mapError, bind, Except.bind]
      | ok _ =>
          obtain ⟨low, high⟩ := inTrack offset List.mem_cons_self
          obtain ⟨next, added, summed⟩ :=
            addSegment_sums takes low high wide (triangle offset · low) summed
          have turns : addSegments model mix weight progress total done fade (offset :: rest) =
              addSegments model mix weight progress total (done + 1) next rest := by
            simp only [addSegments, reported, Except.mapError, bind, Except.bind, added]
          have later := ih (done + 1) (by omega) summed
            fun offset member => inTrack offset (List.mem_cons_of_mem _ member)
          rwa [List.append_assoc, List.singleton_append, ← turns] at later

variable [LinearOrder K] [IsStrictOrderedRing K]

/-- The triangle is, up to its unit, how far a sample is from the nearer end. -/
theorem transitionWeight_nearness {segment : Int} (chunk : 1 ≤ segment) :
    ∃ (weight : Rows Unit K) (unit : K), transitionWeight segment = some weight ∧ 0 < unit ∧
      (weight.width : Int) = segment ∧ ∀ (offset : Int) (t : Nat), 0 ≤ offset → offset ≤ t →
        t < offset + segment →
          weight.sample () (t - offset.toNat) = unit * (nearness segment t offset : K) := by
  obtain ⟨weight, is, wide, above⟩ := transitionWeight_spec (K := K) chunk
  have made := is
  unfold transitionWeight at made
  dsimp only at made
  split at made
  · obtain ⟨peak, -, built⟩ := Option.map_eq_some_iff.mp made
    have entry (offset : Int) (t : Nat) (low : 0 ≤ offset) (start : offset ≤ t)
        (stop : t < offset + segment) :
        weight.sample () (t - offset.toNat) = peak⁻¹ * (nearness segment t offset : K) := by
      have place : t - offset.toNat < (segment / 2).toNat + (segment - segment / 2).toNat := by
        omega
      rw [← built, Rows.sample, List.getD_eq_getElem?_getD, List.getElem?_map,
        triangle_entry place, Option.map_some, Option.getD_some, div_eq_inv_mul]
      congr 1
      have near : ((if t - offset.toNat < (segment / 2).toNat then t - offset.toNat + 1
          else (segment / 2).toNat + (segment - segment / 2).toNat - (t - offset.toNat) : Nat) :
            Int) = nearness segment t offset := by
        unfold nearness
        split <;> omega
      rw [← near, Int.cast_natCast]
    refine ⟨weight, peak⁻¹, is, ?_, wide, entry⟩
    -- The first sample is one away from its end, and its weight is the unit.
    have first : 0 < weight.sample () (0 - (0 : Int).toNat) := above 0 (by omega)
    have one : nearness segment 0 0 = 1 := by
      unfold nearness
      omega
    rwa [entry 0 0 le_rfl le_rfl (by omega), one, Int.cast_one, mul_one] at first
  · cases made

omit [IsStrictOrderedRing K] in
theorem smallest_pos {x : Rows Unit K} (track : 1 ≤ x.width)
    (positive : ∀ t < x.width, 0 < x.sample () t) :
    ∃ smallest, (x.row ()).min? = some smallest ∧ 0 < smallest := by
  cases found : (x.row ()).min? with
  | none =>
      have length := x.shape ()
      rw [List.min?_eq_none_iff.mp found, List.length_nil] at length
      omega
  | some smallest =>
      refine ⟨smallest, rfl, ?_⟩
      obtain ⟨t, inside, here⟩ := List.mem_iff_getElem.mp (List.min?_mem found)
      have above := positive t (x.shape () ▸ inside)
      rwa [Rows.sample, List.getD_eq_getElem _ _ inside, here] at above

variable [FloorRing K]

theorem strideOf_le {overlap : K} {segment : Int} (chunk : 1 ≤ segment) (shared : 0 ≤ overlap) :
    strideOf overlap segment ≤ segment := by
  have whole : (0 : K) ≤ segment := by exact_mod_cast (by omega : 0 ≤ segment)
  have below : (1 - overlap) * segment ≤ (segment : K) := by
    have part : 0 ≤ overlap * segment := mul_nonneg shared whole
    linarith
  unfold strideOf
  dsimp only
  split
  · exact_mod_cast (Int.floor_le _).trans below
  · exact Int.ceil_le.mpr below

def Averaged (model : Chunked B C K E) (mix : Rows (B × C) K) (overlap : K)
    (out : Rows (B × Fin model.sources × C) K) : Prop :=
  out.width = mix.width ∧ ∀ name t, t < mix.width →
    let heard := around model.chunk mix.width (offsets mix.width (strideOf overlap model.chunk)) t
    heard ≠ [] ∧ out.sample name t =
      weightedMean (fun offset => (nearness model.chunk t offset : K)) (said model mix name t) heard

theorem Accumulated.averaged {model : Chunked B C K E} {mix : Rows (B × C) K} {overlap unit : K}
    {fade : Crossfade B C K model.sources} (takes : model.Takes) (track : 1 ≤ mix.width)
    (shared : 0 ≤ overlap) (strides : 1 ≤ strideOf overlap model.chunk) (above : 0 < unit)
    (summed : Accumulated model mix unit fade (offsets mix.width (strideOf overlap model.chunk))) :
    ∃ smallest out, (fade.sumWeight.row ()).min? = some smallest ∧ 0 < smallest ∧
      fade.out.zipWith (· / ·) (fade.sumWeight.reindex fun _ => ()) = some out ∧
      Averaged model mix overlap out := by
  have all : AllHeard model.chunk mix.width (offsets mix.width (strideOf overlap model.chunk)) :=
    allHeard_of_le strides (strideOf_le takes.chunk shared)
  have heard (t : Nat) (inside : t < mix.width) : around model.chunk mix.width
      (offsets mix.width (strideOf overlap model.chunk)) t ≠ [] := by
    obtain ⟨offset, member, within⟩ := all t (by omega)
    exact List.ne_nil_of_mem (mem_around.mpr ⟨member, within⟩)
  have positive (t : Nat) (inside : t < mix.width) : 0 < fade.sumWeight.sample () t := by
    rw [summed.sum t inside]
    refine weightSum_pos (fun offset member => mul_pos above ?_) (heard t inside)
    exact_mod_cast nearness_pos (mem_around.mp member).2
  obtain ⟨smallest, found, least⟩ := smallest_pos (x := fade.sumWeight)
    (by rwa [summed.sumWidth]) fun t inside => positive t (summed.sumWidth ▸ inside)
  obtain ⟨out, divided, width, sample⟩ := Rows.zipWith_spec (· / ·) (x := fade.out)
    (y := fade.sumWeight.reindex fun _ => ())
    (show fade.out.width = fade.sumWeight.width by rw [summed.outWidth, summed.sumWidth])
  refine ⟨smallest, out, found, least, divided, width.trans summed.outWidth,
    fun name t inside => ⟨heard t inside, ?_⟩⟩
  rw [sample _ _ (summed.outWidth.symm ▸ inside), Rows.reindex_sample, summed.out name t inside,
    summed.sum t inside]
  exact weightedMean_scale above.ne' _

/-- A run over a track comes to that, unless the caller refuses. -/
theorem overTrack_settles {model : Chunked B C K E} (takes : model.Takes) (mix : Rows (B × C) K)
    (overlap : K) (progress : Nat → Nat → Except E Unit) (track : 1 ≤ mix.width)
    (shared : 0 ≤ overlap) (strides : 1 ≤ strideOf overlap model.chunk) :
    (∃ out, overTrack model mix overlap progress = .ok out ∧ Averaged model mix overlap out) ∨
    ∃ d e, d ≤ (offsets mix.width (strideOf overlap model.chunk)).length ∧
      progress d (offsets mix.width (strideOf overlap model.chunk)).length = .error e ∧
      overTrack model mix overlap progress = .error (.failed e) := by
  obtain ⟨weight, unit, weightIs, above, wide, triangle⟩ :=
    transitionWeight_nearness (K := K) takes.chunk
  have enough : ¬ strideOf overlap model.chunk < 1 := by omega
  have silent : Accumulated model mix unit ⟨.zeros _ K mix.width, .zeros _ K mix.width⟩ [] :=
    ⟨rfl, rfl, fun _ _ _ => Rows.zeros_sample _ _ _, fun _ _ => Rows.zeros_sample _ _ _⟩
  rcases addSegments_sums progress takes wide triangle
    (offsets mix.width (strideOf overlap model.chunk)) 0 (Nat.zero_add _).le silent
    (fun offset member => offset_within strides member) with
      ⟨fade, ran, summed⟩ | ⟨d, e, below, refused, ran⟩
  · cases reported : progress (offsets mix.width (strideOf overlap model.chunk)).length
      (offsets mix.width (strideOf overlap model.chunk)).length with
    | error e =>
        refine .inr ⟨_, e, le_rfl, reported, ?_⟩
        simp only [overTrack, if_neg enough, weightIs, required, ran, reported, bind, Except.bind,
          Except.mapError]
    | ok _ =>
        obtain ⟨smallest, out, found, least, divided, averaged⟩ :=
          Accumulated.averaged takes track shared strides above summed
        refine .inl ⟨out, ?_, averaged⟩
        rw [overTrack_eq rfl strides weightIs ran reported found divided, if_neg least.not_ge]
  · refine .inr ⟨d, e, below, refused, ?_⟩
    simp only [overTrack, if_neg enough, weightIs, required, ran, bind, Except.bind]

/-- Over a track, every sample is the mean of what the segments around it say, by how far it is
from the nearer end of each, and there is always such a segment. -/
theorem overTrack_mean {model : Chunked B C K E} (takes : model.Takes) (mix : Rows (B × C) K)
    (overlap : K) (progress : Nat → Nat → Except E Unit) (track : 1 ≤ mix.width)
    (shared : 0 ≤ overlap) (strides : 1 ≤ strideOf overlap model.chunk)
    (goesOn : ∀ done ≤ (offsets mix.width (strideOf overlap model.chunk)).length,
      progress done (offsets mix.width (strideOf overlap model.chunk)).length = .ok ()) :
    ∃ out, overTrack model mix overlap progress = .ok out ∧ Averaged model mix overlap out := by
  rcases overTrack_settles takes mix overlap progress track shared strides with
    done | ⟨d, e, below, refused, -⟩
  · exact done
  · rw [goesOn d below] at refused
    cases refused

/-- What comes out at a sample depends on the track within one segment of it. -/
theorem overTrack_local {model : Chunked B C K E} (takes : model.Takes) (mix mix' : Rows (B × C) K)
    (overlap : K) (progress : Nat → Nat → Except E Unit) (track : 1 ≤ mix.width)
    (shared : 0 ≤ overlap) (strides : 1 ≤ strideOf overlap model.chunk)
    (goesOn : ∀ done ≤ (offsets mix.width (strideOf overlap model.chunk)).length,
      progress done (offsets mix.width (strideOf overlap model.chunk)).length = .ok ())
    (width : mix'.width = mix.width) :
    ∃ out out', overTrack model mix overlap progress = .ok out ∧
      overTrack model mix' overlap progress = .ok out' ∧
      ∀ t, t < mix.width → (∀ i (p : Nat), p < mix.width → (p : Int) < t + model.chunk →
        (t : Int) < p + model.chunk → mix'.sample i p = mix.sample i p) →
          ∀ name, out'.sample name t = out.sample name t := by
  obtain ⟨out, ran, -, mean⟩ := overTrack_mean takes mix overlap progress track shared strides
    goesOn
  obtain ⟨out', ran', -, mean'⟩ := overTrack_mean takes mix' overlap progress (width ▸ track) shared
    strides (width ▸ goesOn)
  refine ⟨out, out', ran, ran', fun t inside agree name => ?_⟩
  rw [(mean name t inside).2, (mean' name t (width ▸ inside)).2, width]
  apply weightedMean_congr
  intro offset member
  obtain ⟨cut, within⟩ := mem_around.mp member
  exact said_congr takes (offset_within strides cut).1 width within agree name

/-- Crossfading adds nothing of its own: what comes out lies between what the segments say. -/
theorem overTrack_between {model : Chunked B C K E} (takes : model.Takes) {mix : Rows (B × C) K}
    {overlap : K} {progress : Nat → Nat → Except E Unit} (track : 1 ≤ mix.width)
    (shared : 0 ≤ overlap) (strides : 1 ≤ strideOf overlap model.chunk)
    (goesOn : ∀ done ≤ (offsets mix.width (strideOf overlap model.chunk)).length,
      progress done (offsets mix.width (strideOf overlap model.chunk)).length = .ok ())
    {out : Rows (B × Fin model.sources × C) K}
    (ran : overTrack model mix overlap progress = .ok out) {name : B × Fin model.sources × C}
    {t : Nat} (inside : t < mix.width) {low high : K}
    (within : ∀ offset, InSegment model.chunk mix.width offset t →
      low ≤ said model mix name t offset ∧ said model mix name t offset ≤ high) :
    low ≤ out.sample name t ∧ out.sample name t ≤ high := by
  obtain ⟨_, ran', -, mean⟩ := overTrack_mean takes mix overlap progress track shared strides goesOn
  obtain rfl := Except.ok.inj (ran'.symm.trans ran)
  obtain ⟨heard, is⟩ := mean name t inside
  rw [is]
  refine weightedMean_between (fun offset member => ?_) heard fun offset member => ?_
  · exact_mod_cast nearness_pos (mem_around.mp member).2
  · exact within offset (mem_around.mp member).2

end

def shortModel : Chunked Unit Unit ℚ Unit := identityModel 2

theorem shortModel_takes : shortModel.Takes :=
  ⟨by decide, fun _ _ => ⟨_, rfl, rfl⟩⟩

def onlyName : Unit × Fin shortModel.sources × Unit := ((), ⟨0, Nat.one_pos⟩, ())

theorem short_stride : strideOf (1 / 2 : ℚ) shortModel.chunk = 1 := by decide +kernel

/-- The middle of three samples is in two segments. -/
example :
    ∃ out, overTrack shortModel shortTrack (1 / 2) (fun _ _ => .ok ()) = .ok out ∧
      out.sample onlyName 1 = weightedMean (fun offset => (nearness 2 1 offset : ℚ))
        (said shortModel shortTrack onlyName 1) [0, 1] := by
  obtain ⟨out, ran, -, mean⟩ := overTrack_mean shortModel_takes shortTrack (1 / 2)
    (fun _ _ => .ok ()) (by decide) (by norm_num) short_stride.ge fun _ _ => rfl
  refine ⟨out, ran, ?_⟩
  have middle := (mean onlyName 1 (by decide)).2
  rw [short_stride] at middle
  exact middle

/-- Another last sample, which the first is out of reach of. -/
theorem short_track_local :
    ∃ out out', overTrack shortModel shortTrack (1 / 2) (fun _ _ => .ok ()) = .ok out ∧
      overTrack shortModel ⟨3, fun _ => [1, 2, 9], fun _ => rfl⟩ (1 / 2) (fun _ _ => .ok ()) =
        .ok out' ∧ out'.sample onlyName 0 = out.sample onlyName 0 := by
  obtain ⟨out, out', ran, ran', alike⟩ := overTrack_local shortModel_takes shortTrack
    ⟨3, fun _ => [1, 2, 9], fun _ => rfl⟩ (1 / 2) (fun _ _ => .ok ()) (by decide) (by norm_num)
    short_stride.ge (fun _ _ => rfl) rfl
  refine ⟨out, out', ran, ran', alike 0 (by decide) (fun i p below near _ => ?_) onlyName⟩
  change (p : Int) < 0 + 2 at near
  match p with
  | 0 => rfl
  | 1 => rfl
  | p + 2 => omega

end Stemd.Mlx
