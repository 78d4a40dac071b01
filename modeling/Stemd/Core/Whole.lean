import Stemd.Core.Mode1
import Stemd.Core.Single
import Stemd.Mlx.Crossfade

/-! What either arrangement gives of a track.

A model that takes every chunk of its own length leaves nothing to fail on between the geometry
checks and the stems: a track of the right channels, rate and length either comes out as its two
stems, sample for sample as long as it went in, or was called off. -/

set_option autoImplicit false

namespace Stemd.Core

open Stemd.Semantics Stemd.Mlx

structure Stems.Of {K : Type} (mix : Audio K) (stems : Stems K) : Prop where
  names : stems.shipped.map Prod.fst = shippedNames
  shaped : ∀ part ∈ stems.shipped,
    Shaped part.2.data mix.channels mix.frames ∧ part.2.sampleRate = mix.sampleRate

structure Suits {K : Type} (channels : Nat) (rate : UInt32) (mix : Audio K) : Prop where
  wide : mix.channels = channels
  rate : mix.sampleRate = rate
  rectangular : mix.Rectangular
  some : 1 ≤ mix.frames
  count : channels < 2 ^ 31
  long : mix.frames < 2 ^ 31

section

variable {K : Type}

theorem Suits.shaped {channels : Nat} {rate : UInt32} {mix : Audio K}
    (suits : Suits channels rate mix) : Shaped mix.data channels mix.frames :=
  ⟨suits.wide, suits.rectangular⟩

theorem Suits.channels_pos {channels : Nat} {rate : UInt32} {mix : Audio K}
    (suits : Suits channels rate mix) : 0 < channels := by
  obtain ⟨wide, -, -, some, -, -⟩ := suits
  unfold Audio.frames at some
  cases data : mix.data with
  | nil =>
      rw [data] at some
      cases some
  | cons first rest =>
      rw [← wide, Audio.channels, data]
      exact Nat.succ_pos _

theorem Shaped.frames {audio : Audio K} {channels frames : Nat}
    (shaped : Shaped audio.data channels frames) (some : 0 < channels) : audio.frames = frames := by
  obtain ⟨count, each⟩ := shaped
  unfold Audio.frames
  cases data : audio.data with
  | nil =>
      rw [data, List.length_nil] at count
      omega
  | cons first rest => exact each first (data ▸ List.mem_cons_self)

theorem Shaped.total {data : List (List K)} {channels frames : Nat}
    (shaped : Shaped data channels frames) : (data.map List.length).sum = channels * frames := by
  have each : data.map List.length = List.replicate channels frames := by
    rw [← shaped.1]
    exact List.map_eq_replicate_iff.mpr shaped.2
  rw [each, List.sum_replicate_nat]

variable [Field K]

theorem toArray_shaped {channels : Nat} {mix : Audio K} (norm : Option (Normalisation K))
    (shaped : Shaped mix.data channels mix.frames) (count : channels < 2 ^ 31)
    (long : mix.frames < 2 ^ 31) :
    ∃ array, toArray channels mix norm = some array ∧ array.width = mix.frames := by
  have size (f : List K → List K) (keeps : ∀ ch, (f ch).length = ch.length) :
      (mix.data.flatMap f).length = channels * mix.frames := by
    rw [List.length_flatMap, ← shaped.total]
    exact congrArg List.sum (List.map_congr_left fun ch _ => keeps ch)
  cases norm with
  | none => exact ⟨_, dif_pos ⟨size _ fun _ => rfl, count, long⟩, rfl⟩
  | some n => exact ⟨_, dif_pos ⟨size _ fun _ => List.length_map _, count, long⟩, rfl⟩

omit [Field K] in
theorem flatMap_rows_length {ι : Type} (names : List ι) (x : Rows ι K) :
    (names.flatMap x.row).length = names.length * x.width := by
  rw [List.length_flatMap, List.map_congr_left fun name _ => x.shape name, List.map_const',
    List.sum_replicate_nat]

theorem toPlanes_some {channels sources : Nat} {out : Rows (Unit × Fin sources × Fin channels) K}
    {source frames : Nat} (norm : Option (Normalisation K)) (present : source < sources)
    (width : out.width = frames) : ∃ planes, toPlanes out source norm frames = some planes := by
  have enough : channels * frames ≤ ((List.finRange channels).flatMap fun c =>
      out.row ((), ⟨source, present⟩, c)).length := by
    have length := flatMap_rows_length (List.finRange channels)
      (out.reindex fun c => ((), ⟨source, present⟩, c))
    rw [List.length_finRange] at length
    exact (width ▸ length).ge
  unfold toPlanes
  rw [dif_pos present]
  exact ⟨_, if_pos enough⟩

variable [LinearOrder K]

theorem normalisation_some (root : K → K) {mix : Audio K} {channels : Nat}
    (shaped : Shaped mix.data channels mix.frames) :
    ∃ norm, Normalisation.of root mix = some norm := by
  have stats : ∃ stats, monoMeanStd root mix = some stats := by
    unfold monoMeanStd
    dsimp only
    split
    · exact ⟨_, rfl⟩
    · exact ⟨_, if_pos fun ch member => (shaped.2 ch member).ge⟩
  obtain ⟨pair, found⟩ := stats
  exact ⟨_, congrArg (Option.map _) found⟩

end

section

variable {K M : Type} [Field K] [LinearOrder K] [IsStrictOrderedRing K] [FloorRing K]
  (raised : Nat → Bool)

def CalledOff (e : OverTrackError K (AnyError M)) : Prop :=
  e = .failed .cancelled ∧ ∃ t, raised t = true

theorem overTrack_answered {C : Type} {model : Chunked Unit C K (AnyError M)} (takes : model.Takes)
    (mix : Rows (Unit × C) K) (overlap : K) (t : Nat) (track : 1 ≤ mix.width)
    (shared : 0 ≤ overlap) (strides : 1 ≤ strideOf overlap model.chunk) :
    Settles (fun out => out.width = mix.width) (CalledOff raised)
      (overTrack model mix overlap (answers raised t)) := by
  rcases overTrack_settles takes mix overlap (answers raised t) track shared strides with
    ⟨out, ran, width, -⟩ | ⟨d, e, -, refused, ran⟩
  · rw [ran]
    exact width
  · rw [ran]
    unfold answers at refused
    split at refused
    · next up =>
        cases refused
        exact ⟨rfl, _, up⟩
    · cases refused

structure Half.Sound {channels : Nat} (overlap : K) (half : Half K (AnyError M) channels) :
    Prop where
  takes : half.model.Takes
  present : half.source < half.model.sources
  strides : 1 ≤ strideOf overlap half.model.chunk

theorem Half.Sound.run_settles (root : K → K) {channels : Nat} {overlap : K}
    {half : Half K (AnyError M) channels} (sound : half.Sound overlap) (shared : 0 ≤ overlap)
    {source : Audio K} (shaped : Shaped source.data channels source.frames)
    (some : 1 ≤ source.frames) (count : channels < 2 ^ 31) (long : source.frames < 2 ^ 31)
    (t : Nat) : Settles (fun result => Shaped result channels source.frames)
      (fun e => ∃ cause, e = .track cause ∧ CalledOff raised cause)
      (half.run root overlap source (answers raised t) source.frames) := by
  obtain ⟨norm, normed⟩ := normalisation_some root shaped
  obtain ⟨input, given, width⟩ :=
    toArray_shaped (if half.normalised then Option.some norm else none) shaped count long
  have run := overTrack_answered raised sound.takes input overlap t (width ▸ some) shared
    sound.strides
  unfold Half.run
  rw [normed]
  change Settles _ _ (fitted (toArray channels source _) >>= _)
  rw [given, fitted, ok_bind]
  refine Settles.bind (run.mapError fun e called => ⟨e, rfl, called⟩) fun out wide => ?_
  obtain ⟨planes, made⟩ := toPlanes_some (if half.normalised then Option.some norm else none)
    sound.present (wide.trans width)
  rw [made]
  exact toPlanes_shaped made

/-- What the first half estimates is as long as the track, and the second one has its answer. -/
theorem HybridSeparator.estimates_settles (root : K → K)
    (separator : HybridSeparator K (AnyError M))
    (vocals : separator.vocals.Sound separator.overlap)
    (drums : separator.drums.Sound separator.overlap) (shared : 0 ≤ separator.overlap)
    {mix : Audio K} (suits : Suits separator.channels separator.sampleRate mix) (t t' : Nat) :
    Settles (fun pair => Shaped pair.1 separator.channels mix.frames)
      (fun e => ∃ cause, e = .track cause ∧ CalledOff raised cause)
      (separator.estimates root (answers raised t) (answers raised t') mix) := by
  refine Settles.bind (vocals.run_settles raised root shared suits.shaped suits.some suits.count
    suits.long t) fun sung whole => ?_
  -- What the drums half is handed is as long, chained or not.
  have handed : Shaped (separator.forDrums mix sung).data separator.channels mix.frames := by
    unfold HybridSeparator.forDrums
    split
    · exact planes_shaped _ _ _
    · exact suits.shaped
  have frames := handed.frames suits.channels_pos
  rw [← frames] at handed
  have played := drums.run_settles raised root shared handed (frames ▸ suits.some)
    suits.count (frames ▸ suits.long) t'
  rw [frames] at played
  exact Settles.bind played fun _ _ => whole

/-- Two halves give the stems of every track that suits them, unless they are called off. -/
theorem HybridSeparator.separates (root : K → K) (separator : HybridSeparator K (AnyError M))
    (vocals : separator.vocals.Sound separator.overlap)
    (drums : separator.drums.Sound separator.overlap) (shared : 0 ≤ separator.overlap)
    {mix : Audio K} (suits : Suits separator.channels separator.sampleRate mix) :
    Settles (Stems.Of mix) (fun e => ∃ cause, e = .track cause ∧ CalledOff raised cause)
      (separator.tracedSeparate root raised mix 0).1 := by
  have checked : separator.checkGeometry mix = .ok () := by
    rw [HybridSeparator.checkGeometry, if_neg (not_not.mpr suits.wide),
      if_neg (not_not.mpr suits.rate)]
    rfl
  have heard : mix.frames ≠ 0 := Nat.one_le_iff_ne_zero.mp suits.some
  rw [HybridSeparator.tracedSeparate_fst, HybridSeparator.separate, checked, ok_bind, if_neg heard]
  refine Settles.bind (separator.estimates_settles raised root vocals drums shared suits _ _) ?_
  rintro ⟨sung, played⟩ whole
  have built : separator.assembled mix sung played = some ⟨[("harmonics",
      ⟨remainder separator.channels mix sung played, separator.sampleRate⟩),
      ("vocals", ⟨sung, separator.sampleRate⟩)]⟩ := rfl
  change Settles _ _ (fitted (separator.assembled mix sung played))
  rw [built]
  refine ⟨rfl, fun part member => ?_⟩
  rw [suits.wide, suits.rate]
  rcases List.mem_cons.mp member with rfl | member
  · exact ⟨planes_shaped _ _ _, rfl⟩
  · obtain rfl := List.mem_singleton.mp member
    exact ⟨whole, rfl⟩

end

section

variable {K E : Type}

theorem mapM_map_some {α : Type} (l : List α) : (l.map some).mapM id = some l := by
  induction l with
  | nil => rfl
  | cons a rest ih => rw [List.map_cons, List.mapM_cons, ih]; rfl

variable [Field K]

theorem addInto_shaped {dst src : Audio K} {channels frames : Nat}
    (first : Shaped dst.data channels frames) (second : Shaped src.data channels frames) :
    ∃ sum, addInto dst src = .ok sum ∧ Shaped sum.data channels frames ∧
      sum.sampleRate = dst.sampleRate := by
  let line (c : Nat) (ch : List K) := ch.mapIdx fun i sample => sample + planeAt src.data c i
  have lines (c : Nat) (inside : c < dst.data.length) :
      (dst.data[c].mapIdx fun i sample => (src.sample? c i).map (sample + ·)).mapM id =
        some (line c dst.data[c]) := by
    have length : dst.data[c].length = frames := first.2 _ (List.getElem_mem inside)
    rw [← mapM_map_some (line c dst.data[c])]
    congr 1
    refine List.ext_getElem (by simp [line]) fun i here _ => ?_
    rw [List.length_mapIdx] at here
    have sample : src.sample? c i = some (planeAt src.data c i) := by
      rw [Audio.sample?, second.sample?, if_pos ⟨first.1 ▸ inside, length ▸ here⟩]
    simp only [line, List.getElem_mapIdx, List.getElem_map, sample, Option.map_some]
  have whole : (dst.data.mapIdx fun c ch =>
      (ch.mapIdx fun i sample => (src.sample? c i).map (sample + ·)).mapM id).mapM id =
        some (dst.data.mapIdx line) := by
    rw [← mapM_map_some (dst.data.mapIdx line)]
    congr 1
    refine List.ext_getElem (by simp) fun c here _ => ?_
    rw [List.length_mapIdx] at here
    rw [List.getElem_mapIdx, List.getElem_map, List.getElem_mapIdx, lines c here]
  refine ⟨⟨dst.data.mapIdx line, dst.sampleRate⟩, ?_, ⟨?_, fun plane member => ?_⟩, rfl⟩
  · simp only [addInto, whole]
  · rw [List.length_mapIdx, first.1]
  · obtain ⟨c, here, rfl⟩ := List.mem_mapIdx.mp member
    rw [List.length_mapIdx]
    exact first.2 _ (List.getElem_mem here)

def fourStemSources : List String := ["drums", "bass", "other", "vocals"]

theorem foldIntoShipped_shaped {sources : List (Audio K)} {channels frames : Nat} {rate : UInt32}
    (four : sources.length = fourStemSources.length) (shaped : ∀ audio ∈ sources,
      Shaped audio.data channels frames ∧ audio.sampleRate = rate) :
    ∃ sum vocals, foldIntoShipped sources fourStemSources =
        .ok [("harmonics", sum), ("vocals", vocals)] ∧
      (Shaped sum.data channels frames ∧ sum.sampleRate = rate) ∧
      (Shaped vocals.data channels frames ∧ vocals.sampleRate = rate) := by
  obtain ⟨drums, bass, other, vocals, rfl⟩ : ∃ a b c d, sources = [a, b, c, d] := by
    match sources, four with
    | [a, b, c, d], _ => exact ⟨a, b, c, d, rfl⟩
  have low := shaped bass (by simp)
  have rest := shaped other (by simp)
  obtain ⟨sum, added, whole, rated⟩ := addInto_shaped low.1 rest.1
  refine ⟨sum, vocals, ?_, ⟨whole, rated.trans low.2⟩, shaped vocals (by simp)⟩
  have folded : foldMembers [drums, bass, other, vocals] fourStemSources none ["bass", "other"] =
      (addInto bass other >>= fun sum => .ok (some sum)) := rfl
  have sung : foldMembers [drums, bass, other, vocals] fourStemSources none ["vocals"] =
      .ok (some vocals) := rfl
  rw [added, ok_bind] at folded
  rw [foldIntoShipped, stemSources, List.mapM_cons, List.mapM_cons, List.mapM_nil]
  simp only [folded, sung, ok_bind]
  rfl

theorem MlxSeparator.toSources_shaped {separator : MlxSeparator K E}
    {out : Rows (Unit × Fin separator.demucs.sources × Fin separator.channels) K}
    (norm : Normalisation K) {frames : Nat} (width : out.width = frames)
    (enough : separator.sources.length ≤ separator.demucs.sources) :
    ∃ sources, separator.toSources out norm frames = some sources ∧
      sources.length = separator.sources.length ∧ ∀ audio ∈ sources,
        Shaped audio.data separator.channels frames ∧ audio.sampleRate = separator.sampleRate := by
  let flat := (List.finRange separator.demucs.sources).flatMap fun s =>
    (List.finRange separator.channels).flatMap fun c => out.row ((), s, c)
  let plane (source : Nat) : Audio K := ⟨(List.range separator.channels).map fun c =>
    ((((flat.drop (source * (separator.channels * frames))).take
      (separator.channels * frames)).drop (c * frames)).take frames).map norm.restore,
    separator.sampleRate⟩
  have length : flat.length = separator.demucs.sources * (separator.channels * frames) := by
    have each (s : Fin separator.demucs.sources) : ((List.finRange separator.channels).flatMap
        fun c => out.row ((), s, c)).length = separator.channels * frames := by
      have rows := flatMap_rows_length (List.finRange separator.channels)
        (out.reindex fun c => ((), s, c))
      rw [List.length_finRange] at rows
      exact width ▸ rows
    rw [List.length_flatMap, List.map_congr_left fun s _ => each s, List.map_const',
      List.length_finRange, List.sum_replicate_nat]
  have inside (source : Nat) (below : source < separator.sources.length) :
      (source + 1) * (separator.channels * frames) ≤ flat.length := by
    rw [length]
    exact Nat.mul_le_mul_right _ (below.trans_le enough)
  refine ⟨(List.range separator.sources.length).map plane, ?_, by simp, fun audio member => ?_⟩
  · exact mapM_eq_map (m := Option) fun source member =>
      if_pos (inside source (List.mem_range.mp member))
  · obtain ⟨source, below, rfl⟩ := List.mem_map.mp member
    have fits := inside source (List.mem_range.mp below)
    rw [Nat.succ_mul] at fits
    refine ⟨⟨by simp [plane], fun samples member => ?_⟩, rfl⟩
    obtain ⟨c, channel, rfl⟩ := List.mem_map.mp member
    have last : (c + 1) * frames ≤ separator.channels * frames :=
      Nat.mul_le_mul_right _ (List.mem_range.mp channel)
    rw [Nat.succ_mul] at last
    rw [List.length_map, List.length_take, List.length_drop, List.length_take, List.length_drop]
    omega

end

section

variable {K M : Type} [Field K] [LinearOrder K] [IsStrictOrderedRing K] [FloorRing K]
  (raised : Nat → Bool)

omit [IsStrictOrderedRing K] in
theorem tracedTrack_answers {C : Type} (model : Chunked Unit C K (AnyError M))
    (mix : Rows (Unit × C) K) (overlap : K) (progress : Nat → Nat → Progress) (t : Nat) :
    (tracedTrack .pass model mix overlap (ask raised progress) t).1 =
      overTrack model mix overlap (answers raised t) := by
  -- Who is not stopped has asked once and reported once.
  have even (done total t : Nat) (asked : (ask (M := M) raised progress done total t).1 = .ok ()) :
      (ask (M := M) raised progress done total t).2.length = 2 := by
    rw [ask_apply] at asked ⊢
    split at asked
    · cases asked
    · next down =>
      rw [if_neg down]
      rfl
  rw [tracedTrack_fst .pass model mix even overlap t]
  congr 1
  funext done total
  rw [ask_apply, answers]
  split <;> rfl

structure MlxSeparator.Sound (separator : MlxSeparator K (AnyError M)) : Prop where
  takes : separator.demucs.Takes
  names : separator.sources = fourStemSources
  sources : fourStemSources.length ≤ separator.demucs.sources
  shared : 0 ≤ separator.overlap
  strides : 1 ≤ strideOf separator.overlap separator.demucs.chunk

/-- One model gives the stems of every track that suits it, unless it is called off. -/
theorem MlxSeparator.separates (root : K → K) (separator : MlxSeparator K (AnyError M))
    (sound : separator.Sound) {mix : Audio K}
    (suits : Suits separator.channels separator.sampleRate mix) :
    Settles (Stems.Of mix) (fun e => ∃ cause, e = .track cause ∧ CalledOff raised cause)
      (separator.tracedSeparate root raised mix 0).1 := by
  have checked : separator.checkGeometry mix = .ok () := by
    rw [MlxSeparator.checkGeometry, if_neg (not_not.mpr suits.wide),
      if_neg (not_not.mpr suits.rate)]
    rfl
  have heard : mix.frames ≠ 0 := Nat.one_le_iff_ne_zero.mp suits.some
  obtain ⟨norm, normed⟩ := normalisation_some root suits.shaped
  obtain ⟨input, given, width⟩ :=
    toArray_shaped (some norm) suits.shaped suits.count suits.long
  have run := overTrack_answered raised sound.takes input separator.overlap 1
    (width ▸ suits.some) sound.shared sound.strides
  rw [MlxSeparator.tracedSeparate]
  simp only [Timed.bind_fst, Timed.lift_apply, checked, ok_bind, Timed.emit_bind, ensure, heard,
    ne_eq, not_false_eq_true, if_true, normed, given, inBounds, Timed.mapError_apply,
    tracedTrack_answers, List.length_nil, Nat.add_zero, Nat.zero_add]
  refine Settles.bind (run.mapError fun e called => ⟨e, rfl, called⟩) fun out wide => ?_
  obtain ⟨sources, made, four, shaped⟩ :=
    separator.toSources_shaped norm (wide.trans width) (sound.names ▸ sound.sources)
  obtain ⟨sum, vocals, folded, whole, sung⟩ :=
    foldIntoShipped_shaped (four.trans (congrArg List.length sound.names)) shaped
  simp only [made, ok_bind, sound.names, folded, Except.mapError, Except.map]
  refine ⟨rfl, fun part member => ?_⟩
  rw [suits.wide, suits.rate]
  rcases List.mem_cons.mp member with rfl | member
  · exact whole
  · obtain rfl := List.mem_singleton.mp member
    exact sung

end

end Stemd.Core
