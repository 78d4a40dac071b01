import Mathlib.Data.Rat.Defs
import Mathlib.Tactic.NormNum
import Stemd.Core.Format
import Stemd.Core.Stems
import Stemd.Semantics.Fallible
import Stemd.Semantics.Paths
import Stemd.Server.CacheKey

/-! The folder that a dropped track's stems are copied into.

It lies beside the track and is named after it, so that it is there already when a track is
dropped again: what an earlier run wrote is what this run finds. -/

set_option autoImplicit false

namespace Stemd.Server.Drops

open Stemd.Core
open Stemd.Semantics
open Stemd.Semantics.Framing

def stemsSuffix : Bytes := utf8 "-stems"

def titleOf (path : PathBuf) : Bytes := (path.fileStem.map lossy).getD (utf8 "track")

theorem slash_titleOf (path : PathBuf) : slash ∉ titleOf path := by
  rw [titleOf, PathBuf.fileStem]
  cases path.fileName with
  | none => decide
  | some name => exact slash_lossy name.slash_stem

def stemsName (title : Bytes) (named : slash ∉ title) : FileName where
  bytes := title ++ stemsSuffix
  valid := by
    have long : 3 ≤ (title ++ stemsSuffix).length := by
      rw [List.length_append]
      exact Nat.le_trans (by decide) (Nat.le_add_left _ _)
    refine ⟨fun made => ?_, fun made => ?_, fun made => ?_, ?_⟩
    · exact absurd (made ▸ long) (by decide)
    · exact absurd (made ▸ long) (by decide)
    · exact absurd (made ▸ long) (by decide)
    · rw [List.mem_append, not_or]
      exact ⟨named, by decide⟩

def folderOf (source : PathBuf) : PathBuf := source.parent.getD ⟨[.curDir]⟩

/-- `<track>-stems/` beside the file that was dropped. -/
def outputDir (source : PathBuf) : PathBuf :=
  (folderOf source).join (stemsName (titleOf source) (slash_titleOf source))

def extension : StemFormat → String
  | .pcm16 | .pcm32 => "pcm"
  | .flac => "flac"
  | .wav => "wav"
  | .mp3 => "mp3"

def partNames : List String := derivedName :: shippedNames

structure CachedStem (K : Type) where
  name : String
  dir : PathBuf
  file : FileName
  gain : K

namespace CachedStem

variable {K : Type}

def path (stem : CachedStem K) : PathBuf := stem.dir.join stem.file

def Named (stem : CachedStem K) : Prop :=
  stem.name ∈ partNames ∧ ∃ format, stem.file.bytes = utf8 (stem.name ++ "." ++ extension format)

theorem Named.simple {stem : CachedStem K} (named : stem.Named) : Simple stem.file.bytes := by
  obtain ⟨part, format, bytes⟩ := named
  rw [bytes]
  have checked : ∀ name ∈ partNames, Simple (utf8 (name ++ "." ++ extension format)) := by
    cases format <;> decide
  exact checked _ part

end CachedStem

structure Entry (K : Type) where
  stems : List (CachedStem K)
  separationSecs : K
  named : ∀ stem ∈ stems, stem.Named
  distinct : (stems.map CachedStem.name).Nodup

/-- What a file holds: bytes of any kind, or the note of what was scaled. -/
inductive Content (K : Type) where
  | bytes (bytes : Bytes)
  | gains (scaled : List (String × K))

inductive Call where
  | createDirAll (dir : PathBuf)
  | copy (source target : PathBuf)
  | write (path : PathBuf)
  deriving DecidableEq

inductive Failure where
  | creating (dir : PathBuf)
  | copying (name : FileName) (dir : PathBuf)
  | writing (path : PathBuf)
  deriving DecidableEq

structure Finished (K : Type) where
  dir : PathBuf
  parts : List String
  secs : K
  cached : Bool

structure Written (K : Type) where
  files : Files (Content K)
  fetched : List String
  scaled : List (String × K)
  parts : List String

def stemsJson : FileName := ⟨utf8 "stems.json", by decide⟩

section

variable {K : Type}

def targetOf (vol : Volume) (dir : PathBuf) (stem : CachedStem K) : Location :=
  vol.locate dir ++ [vol.spelling stem.file.lossy]

def noteOf (vol : Volume) (dir : PathBuf) : Location := vol.locate dir ++ [vol.spelling stemsJson]

theorem noteOf_ne_targetOf (vol : Volume) (dir : PathBuf) {stem : CachedStem K}
    (named : stem.Named) : noteOf vol dir ≠ targetOf vol dir stem := by
  intro same
  have lossless : stem.file.lossy = stem.file := FileName.lossy_of_ascii named.simple.ascii
  rw [noteOf, targetOf, lossless] at same
  have spelt := (List.append_inj_right same rfl)
  have name := vol.simple (by decide) named.simple (List.head_eq_of_cons_eq spelt)
  obtain ⟨part, format, bytes⟩ := named
  have checked : ∀ name ∈ partNames, stemsJson.bytes ≠ utf8 (name ++ "." ++ extension format) := by
    cases format <;> decide
  exact checked _ part ((congrArg FileName.bytes name).trans bytes)

end

section

variable {K : Type} [One K] [DecidableEq K] (vol : Volume) (refuses : Call → Bool)

def copyStem (dir : PathBuf) (written : Written K) (stem : CachedStem K) :
    Except Failure (Written K) := do
  let name := stem.file.lossy
  let target := dir.join name
  let content ← parsed (written.files (vol.locate stem.path)) (.copying name dir)
  ensure (refuses (.copy stem.path target) = false) (.copying name dir)
  .ok {
    files := written.files.write (vol.locate target) content
    fetched := written.fetched ++ [stem.name]
    scaled := if stem.gain ≠ 1 then written.scaled ++ [(stem.name, stem.gain)] else written.scaled
    parts := written.parts ++ [stem.name] }

/-- Record the scale a part was written at, when it is not unity. -/
def writeGains (dir : PathBuf) (scaled : List (String × K)) (files : Files (Content K)) :
    Except Failure (Files (Content K)) := do
  let path := dir.join stemsJson
  ensure (refuses (.write path) = false) (.writing path)
  .ok (files.write (vol.locate path) (.gains scaled))

/-- Copy the stems out of the cache into a folder beside the source file. -/
def writeOut (files : Files (Content K)) (source : PathBuf) (entry : Entry K) (cached : Bool) :
    Except Failure (Written K × Finished K) := do
  let dir := outputDir source
  ensure (refuses (.createDirAll dir) = false) (.creating dir)
  let written ← entry.stems.foldlM (copyStem vol refuses dir) ⟨files, [], [], []⟩
  let noted ← (if written.scaled = [] then .ok written.files
    else writeGains vol refuses dir written.scaled written.files)
  .ok ({ written with files := noted }, ⟨dir, written.parts, entry.separationSecs, cached⟩)

end

section

variable {K : Type} [One K] [DecidableEq K]

def scaledOf (stems : List (CachedStem K)) : List (String × K) :=
  (stems.filter fun stem => stem.gain ≠ 1).map fun stem => (stem.name, stem.gain)

theorem scaledOf_cons (stem : CachedStem K) (rest : List (CachedStem K)) :
    scaledOf (stem :: rest) = scaledOf [stem] ++ scaledOf rest := by
  simp only [scaledOf, ← List.map_append, ← List.filter_append, List.singleton_append]

variable {vol : Volume} {refuses : Call → Bool} {dir : PathBuf}

theorem copyStem_ok {written written' : Written K} {stem : CachedStem K}
    (ended : copyStem vol refuses dir written stem = .ok written') :
    ∃ content, written' = {
      files := written.files.write (targetOf vol dir stem) content
      fetched := written.fetched ++ [stem.name]
      scaled := written.scaled ++ scaledOf [stem]
      parts := written.parts ++ [stem.name] } := by
  obtain ⟨content, -, ended⟩ := bind_ok ended
  obtain ⟨-, -, ended⟩ := bind_ok ended
  refine ⟨content, ?_⟩
  rw [← Except.ok.inj ended, Volume.locate_join, targetOf, scaledOf]
  by_cases unity : stem.gain = 1 <;> simp [unity]

structure Copied (vol : Volume) (dir : PathBuf) (stems : List (CachedStem K))
    (before after : Written K) : Prop where
  fetched : after.fetched = before.fetched ++ stems.map CachedStem.name
  scaled : after.scaled = before.scaled ++ scaledOf stems
  parts : after.parts = before.parts ++ stems.map CachedStem.name
  there : ∀ stem ∈ stems, (after.files (targetOf vol dir stem)).isSome
  apart : ∀ place, place ∉ stems.map (targetOf vol dir) → after.files place = before.files place
  kept : ∀ place, (before.files place).isSome → (after.files place).isSome

theorem copies_ok {stems : List (CachedStem K)} {before after : Written K}
    (ended : stems.foldlM (copyStem vol refuses dir) before = .ok after) :
    Copied vol dir stems before after := by
  induction stems generalizing before with
  | nil =>
      obtain rfl := Except.ok.inj ended
      exact ⟨(List.append_nil _).symm, (List.append_nil _).symm, (List.append_nil _).symm,
        fun _ member => (List.not_mem_nil member).elim, fun _ _ => rfl, fun _ held => held⟩
  | cons stem rest ih =>
      rw [List.foldlM_cons] at ended
      obtain ⟨between, first, ended⟩ := bind_ok ended
      obtain ⟨content, rfl⟩ := copyStem_ok first
      have after := ih ended
      refine ⟨?_, ?_, ?_, ?_, ?_,
        fun place held => after.kept place (Files.isSome_write content held)⟩
      · rw [after.fetched, List.append_assoc]
        rfl
      · rw [after.scaled, List.append_assoc, scaledOf_cons stem rest]
      · rw [after.parts, List.append_assoc]
        rfl
      · intro other member
        rcases List.mem_cons.mp member with rfl | member
        · exact after.kept _ (by simp only [Files.write_self, Option.isSome_some])
        · exact after.there other member
      · intro place apart
        rw [List.map_cons, List.mem_cons, not_or] at apart
        exact (after.apart place apart.2).trans (Files.write_of_ne _ _ apart.1)

structure WroteOut (vol : Volume) (source : PathBuf) (entry : Entry K) (cached : Bool)
    (before : Files (Content K)) (written : Written K) (finished : Finished K) : Prop where
  finished : finished =
    ⟨outputDir source, entry.stems.map CachedStem.name, entry.separationSecs, cached⟩
  fetched : written.fetched = entry.stems.map CachedStem.name
  note : written.files (noteOf vol (outputDir source)) =
    if scaledOf entry.stems = [] then before (noteOf vol (outputDir source))
    else some (.gains (scaledOf entry.stems))
  there : ∀ stem ∈ entry.stems, (written.files (targetOf vol (outputDir source) stem)).isSome
  kept : ∀ place, (before place).isSome → (written.files place).isSome

theorem writeOut_ok {source : PathBuf} {entry : Entry K} {cached : Bool}
    {before : Files (Content K)} {written : Written K} {finished : Finished K}
    (ended : writeOut vol refuses before source entry cached = .ok (written, finished)) :
    WroteOut vol source entry cached before written finished := by
  obtain ⟨-, -, ended⟩ := bind_ok ended
  obtain ⟨copied, copies, ended⟩ := bind_ok ended
  have copies := copies_ok copies
  obtain ⟨noted, note, ended⟩ := bind_ok ended
  cases Except.ok.inj ended
  have scaled : copied.scaled = scaledOf entry.stems := copies.scaled
  -- Copying does not touch the note: no stem is called as it is, on any volume.
  have untouched : copied.files (noteOf vol (outputDir source)) =
      before (noteOf vol (outputDir source)) := by
    refine copies.apart _ fun member => ?_
    obtain ⟨stem, held, same⟩ := List.mem_map.mp member
    exact noteOf_ne_targetOf vol _ (entry.named stem held) same.symm
  split at note
  -- Nothing to note: what an earlier run noted stays.
  · rename_i none
    cases Except.ok.inj note
    rw [scaled] at none
    refine ⟨?_, copies.fetched, ?_, copies.there, copies.kept⟩
    · rw [copies.parts]
      rfl
    · rw [if_pos none, untouched]
  · rename_i some
    obtain ⟨-, -, note⟩ := bind_ok note
    cases Except.ok.inj note
    rw [scaled] at some
    refine ⟨?_, copies.fetched, ?_,
      fun stem member => Files.isSome_write _ (copies.there stem member),
      fun place held => Files.isSome_write _ (copies.kept place held)⟩
    · rw [copies.parts]
      rfl
    · simp only [Volume.locate_join, noteOf, Files.write_self, if_neg some, scaled]

theorem copies_succeed (stems : List (CachedStem K)) (before : Written K)
    (there : ∀ stem ∈ stems, (before.files (vol.locate stem.path)).isSome) :
    ∃ after, stems.foldlM (copyStem vol (fun _ => false) dir) before = .ok after := by
  induction stems generalizing before with
  | nil => exact ⟨before, rfl⟩
  | cons stem rest ih =>
      obtain ⟨content, held⟩ := Option.isSome_iff_exists.mp (there stem List.mem_cons_self)
      obtain ⟨between, first⟩ : ∃ between,
          copyStem vol (fun _ => false) dir before stem = .ok between := by
        rw [copyStem, held]
        exact ⟨_, rfl⟩
      obtain ⟨copy, made⟩ := copyStem_ok first
      have still : ∀ other ∈ rest, (between.files (vol.locate other.path)).isSome := by
        intro other member
        rw [made]
        exact Files.isSome_write copy (there other (List.mem_cons_of_mem _ member))
      obtain ⟨after, others⟩ := ih between still
      exact ⟨after, by rw [List.foldlM_cons, first, ok_bind, others]⟩

theorem writeOut_succeeds (source : PathBuf) (entry : Entry K) (cached : Bool)
    {files : Files (Content K)}
    (there : ∀ stem ∈ entry.stems, (files (vol.locate stem.path)).isSome) :
    ∃ written finished,
      writeOut vol (fun _ => false) files source entry cached = .ok (written, finished) := by
  obtain ⟨copied, copies⟩ : ∃ copied, entry.stems.foldlM
      (copyStem vol (fun _ => false) (outputDir source)) ⟨files, [], [], []⟩ = .ok copied :=
    copies_succeed entry.stems _ there
  rw [writeOut]
  simp only [ensure, if_true, copies, ok_bind]
  by_cases none : copied.scaled = []
  · rw [if_pos none]
    exact ⟨_, _, rfl⟩
  · rw [if_neg none]
    exact ⟨_, _, rfl⟩

def readGain (note : Option (Content K)) (name : String) : K :=
  match note with
  | some (.gains scaled) => (scaled.lookup name).getD 1
  | _ => 1

theorem lookup_scaledOf_of_not {stems : List (CachedStem K)} {name : String}
    (absent : name ∉ stems.map CachedStem.name) : (scaledOf stems).lookup name = none := by
  rw [List.lookup_eq_none_iff]
  intro entry member
  obtain ⟨stem, held, rfl⟩ := List.mem_map.mp member
  have listed := List.mem_map_of_mem (f := CachedStem.name) (List.mem_filter.mp held).1
  simpa using fun same : name = stem.name => absent (same ▸ listed)

theorem lookup_scaledOf {stems : List (CachedStem K)}
    (distinct : (stems.map CachedStem.name).Nodup) {stem : CachedStem K} (member : stem ∈ stems) :
    ((scaledOf stems).lookup stem.name).getD 1 = stem.gain := by
  induction stems with
  | nil => cases member
  | cons first rest ih =>
      rw [List.map_cons, List.nodup_cons] at distinct
      rw [scaledOf_cons]
      rw [List.lookup_append]
      rcases List.mem_cons.mp member with rfl | member
      · rw [lookup_scaledOf_of_not distinct.1, Option.or_none]
        by_cases unity : stem.gain = 1 <;> simp [scaledOf, unity]
      · have apart : stem.name ∉ [first].map CachedStem.name := by
          rw [List.map_singleton, List.mem_singleton]
          exact fun same => distinct.1 (same ▸ List.mem_map_of_mem member)
        rw [lookup_scaledOf_of_not apart, Option.none_or, ih distinct.2 member]

theorem scaledOf_ne_nil {stems : List (CachedStem K)} :
    scaledOf stems ≠ [] ↔ ∃ stem ∈ stems, stem.gain ≠ 1 := by
  simp [scaledOf, List.filter_eq_nil_iff]

theorem readGain_listed (entry : Entry K) {stem : CachedStem K} (member : stem ∈ entry.stems) :
    readGain (if scaledOf entry.stems = [] then none else some (.gains (scaledOf entry.stems)))
      stem.name = stem.gain := by
  rw [← lookup_scaledOf entry.distinct member]
  split
  · rename_i none
    rw [none]
    rfl
  · rfl

/-- The note lists what was scaled and by how much, there is none when nothing was, and who
divides by it has every part back at its level. -/
structure Described (vol : Volume) (source : PathBuf) (entry : Entry K)
    (files : Files (Content K)) : Prop where
  note : files (noteOf vol (outputDir source)) =
    if scaledOf entry.stems = [] then none else some (.gains (scaledOf entry.stems))
  read : ∀ stem ∈ entry.stems,
    readGain (files (noteOf vol (outputDir source))) stem.name = stem.gain

/-- The note describes the folder exactly when there is something to note, or no earlier note. -/
theorem described_iff {source : PathBuf} {entry : Entry K} {cached : Bool}
    {before : Files (Content K)} {written : Written K} {finished : Finished K}
    (ended : writeOut vol refuses before source entry cached = .ok (written, finished)) :
    Described vol source entry written.files ↔
      (∃ stem ∈ entry.stems, stem.gain ≠ 1) ∨ before (noteOf vol (outputDir source)) = none := by
  have note := (writeOut_ok ended).note
  rw [← scaledOf_ne_nil]
  constructor
  · intro described
    by_cases unity : scaledOf entry.stems = []
    · have absent := described.note
      rw [note, if_pos unity, if_pos unity] at absent
      exact .inr absent
    · exact .inl unity
  · intro condition
    have listed : written.files (noteOf vol (outputDir source)) =
        if scaledOf entry.stems = [] then none else some (.gains (scaledOf entry.stems)) := by
      rw [note]
      split
      · exact condition.resolve_left fun scaled => scaled ‹_›
      · rfl
    exact ⟨listed, fun stem member => listed ▸ readGain_listed entry member⟩

end

section

variable {K : Type}

def vocalsFile : FileName := ⟨utf8 "vocals.flac", by decide⟩

def vocalsAt (gain : K) : Entry K where
  stems := [⟨"vocals", ⟨[.rootDir]⟩, vocalsFile, gain⟩]
  separationSecs := gain
  named := List.forall_mem_singleton.mpr ⟨(by decide : "vocals" ∈ partNames), .flac,
    (by decide : vocalsFile.bytes = utf8 ("vocals" ++ "." ++ extension .flac))⟩
  distinct := (by decide : ["vocals"].Nodup)

def vocalsCached (K : Type) (vol : Volume) : Files (Content K) :=
  fun place => if place = [vol.spelling vocalsFile] then some (.bytes []) else none

theorem vocalsCached_isSome (K : Type) (vol : Volume) :
    (vocalsCached K vol [vol.spelling vocalsFile]).isSome := by
  rw [vocalsCached, if_pos rfl]
  rfl

theorem vocals_copied [One K] [DecidableEq K] {vol : Volume} {files : Files (Content K)}
    (there : (files [vol.spelling vocalsFile]).isSome) (source : PathBuf) (gain : K) :
    ∃ written finished, writeOut vol (fun _ => false) files source (vocalsAt gain) false =
      .ok (written, finished) :=
  writeOut_succeeds source (vocalsAt gain) false (List.forall_mem_singleton.mpr there)

end

def rootVolume : Volume := ⟨[], id, fun _ _ same => same⟩

def trackFile : PathBuf := ⟨[.rootDir, .normal ⟨utf8 "a.wav", by decide⟩]⟩

/-- A part at half its level, and the note that says so. -/
theorem half_level_is_described :
    ∃ written finished, writeOut rootVolume (fun _ => false) (vocalsCached ℚ rootVolume) trackFile
        (vocalsAt (1 / 2)) false = .ok (written, finished) ∧
      Described rootVolume trackFile (vocalsAt (1 / 2)) written.files := by
  obtain ⟨written, finished, ended⟩ :=
    vocals_copied (vocalsCached_isSome ℚ rootVolume) trackFile (1 / 2)
  refine ⟨written, finished, ended, (described_iff ended).mpr (.inl ?_)⟩
  exact ⟨_, List.mem_singleton_self _, by norm_num⟩

/-- The part is copied again as it was separated, and is still read at half its level. -/
theorem earlier_gain_is_read :
    ∃ first finished second finished',
      writeOut rootVolume (fun _ => false) (vocalsCached ℚ rootVolume) trackFile
          (vocalsAt (1 / 2)) false =
        .ok (first, finished) ∧
      writeOut rootVolume (fun _ => false) first.files trackFile (vocalsAt 1) false =
        .ok (second, finished') ∧
      readGain (second.files (noteOf rootVolume (outputDir trackFile))) "vocals" = 1 / 2 ∧
      ¬ Described rootVolume trackFile (vocalsAt 1) second.files := by
  obtain ⟨first, finished, ended⟩ :=
    vocals_copied (vocalsCached_isSome ℚ rootVolume) trackFile (1 / 2)
  have first_ok := writeOut_ok ended
  obtain ⟨second, finished', ended'⟩ :=
    vocals_copied (first_ok.kept _ (vocalsCached_isSome ℚ rootVolume))
    trackFile 1
  have half : scaledOf (vocalsAt (1 / 2 : ℚ)).stems = [("vocals", 1 / 2)] := by
    norm_num [scaledOf, vocalsAt]
  have whole : scaledOf (vocalsAt (1 : ℚ)).stems = [] := by simp [scaledOf, vocalsAt]
  have stale : second.files (noteOf rootVolume (outputDir trackFile)) =
      some (.gains [("vocals", 1 / 2)]) := by
    rw [(writeOut_ok ended').note, if_pos whole, first_ok.note, half, if_neg (by simp)]
  refine ⟨first, finished, second, finished', ended, ended', ?_, fun described => ?_⟩
  · rw [stale]
    rfl
  · have absent := described.note
    rw [stale, if_pos whole] at absent
    cases absent

end Stemd.Server.Drops
