import Mathlib.Data.Set.Basic
import Stemd.Semantics.Transition
import Stemd.Server.Drops

/-! What discarding a drop deletes.

The folder that goes is the one that the name of the dropped file leads to, and everything in
it. Files that lead to one folder, or whose folders lie in one another, lose what the others
wrote. -/

set_option autoImplicit false

namespace Stemd.Server.Drops

open Stemd.Semantics

structure Dropped where
  source : PathBuf
  dir : PathBuf
  wrote : List Location

def others (finished : List Dropped) (source : PathBuf) : List Dropped :=
  finished.filter fun dropped => dropped.source ≠ source

theorem mem_others {finished : List Dropped} {source : PathBuf} {dropped : Dropped} :
    dropped ∈ others finished source ↔ dropped ∈ finished ∧ dropped.source ≠ source := by
  simp [others]

structure Folders (K : Type) where
  files : Files (Content K)
  finished : List Dropped

inductive Act (K : Type) where
  | write (source : PathBuf) (entry : Entry K) (cached : Bool) (refuses : Call → Bool)
  /-- What cannot be deleted stays. -/
  | discard (source : PathBuf) (stays : Location → Bool)

def Act.source {K : Type} : Act K → PathBuf
  | .write source .. => source
  | .discard source _ => source

/-- Delete a folder, if it is called as this calls them. -/
def removeStems {C : Type} (vol : Volume) (files : Files C) (dir : PathBuf)
    (stays : Location → Bool) : Files C :=
  if dir.fileName.any (fun name => stemsSuffix.isSuffixOf (lossy name.bytes)) then
    files.removeDirAll (vol.locate dir) stays
  else files

section

variable {K : Type} [One K] [DecidableEq K]

def wroteAt (vol : Volume) (source : PathBuf) (entry : Entry K) : List Location :=
  let note := if scaledOf entry.stems = [] then [] else [noteOf vol (outputDir source)]
  entry.stems.map (targetOf vol (outputDir source)) ++ note

def droppedAs (vol : Volume) (source : PathBuf) (entry : Entry K) : Dropped :=
  ⟨source, outputDir source, wroteAt vol source entry⟩

def dropSystem (vol : Volume) (files : Files (Content K)) : System (Folders K) (Act K) where
  init := ⟨files, []⟩
  step folders
    | .write source entry cached refuses =>
      match writeOut vol refuses folders.files source entry cached with
      | .ok (written, finished) =>
        let dropped := ⟨source, finished.dir, wroteAt vol source entry⟩
        some ⟨written.files, dropped :: others folders.finished source⟩
      | .error _ => none
    | .discard source stays =>
      (folders.finished.find? fun dropped => dropped.source = source).map fun dropped =>
        ⟨removeStems vol folders.files dropped.dir stays, others folders.finished source⟩

/-- Whether what one drop wrote lies in the folder that is another's: they lie in the same folder
and have titles that are spelt alike, or the one lies somewhere in the other's stems folder. -/
def Crosses (vol : Volume) (source other : PathBuf) : Prop :=
  (vol.locate (folderOf source) = vol.locate (folderOf other) ∧
    vol.spelling (stemsName (titleOf source) (slash_titleOf source)) =
      vol.spelling (stemsName (titleOf other) (slash_titleOf other))) ∨
  vol.locate (outputDir source) <+: vol.locate (folderOf other)

/-- However drops of these files were written and discarded, discarding one leaves what was
written for every other in place and unchanged. -/
def KeepsOthers (K : Type) [One K] [DecidableEq K] (vol : Volume) (sources : Set PathBuf) : Prop :=
  ∀ (files : Files (Content K)) (folders : Folders K),
    (dropSystem vol files).Reaches (fun _ act => act.source ∈ sources) (dropSystem vol files).init
      folders →
    ∀ source ∈ sources, ∀ (stays : Location → Bool) (after : Folders K),
      (dropSystem vol files).step folders (.discard source stays) = some after →
      ∀ other ∈ folders.finished, other.source ≠ source → ∀ place ∈ other.wrote,
        (folders.files place).isSome ∧ after.files place = folders.files place

end

theorem crosses_iff (vol : Volume) (source other : PathBuf) :
    Crosses vol source other ↔ vol.locate (outputDir source) <+: vol.locate (outputDir other) := by
  rw [Crosses, outputDir, outputDir, Volume.locate_join, Volume.locate_join,
    List.prefix_concat_iff, ← List.concat_eq_append, ← List.concat_eq_append, List.concat_inj]

theorem removeStems_outputDir {C : Type} (vol : Volume) (files : Files C) (source : PathBuf)
    (stays : Location → Bool) : removeStems vol files (outputDir source) stays =
      files.removeDirAll (vol.locate (outputDir source)) stays := by
  refine if_pos ?_
  rw [outputDir, PathBuf.fileName_join, Option.any_some, List.isSuffixOf_iff_suffix, stemsName,
    lossy_append _ (by decide)]
  exact List.suffix_append ..

section

variable {K : Type} [One K] [DecidableEq K] {vol : Volume}

theorem mem_wroteAt {source : PathBuf} {entry : Entry K} {place : Location}
    (member : place ∈ wroteAt vol source entry) :
    ∃ name, place = vol.locate (outputDir source) ++ [name] := by
  rcases List.mem_append.mp member with stem | note
  · obtain ⟨stem, -, rfl⟩ := List.mem_map.mp stem
    exact ⟨_, rfl⟩
  · split at note
    · cases note
    · exact ⟨_, List.mem_singleton.mp note⟩

theorem isSome_wroteAt {source : PathBuf} {entry : Entry K} {cached : Bool}
    {before : Files (Content K)} {written : Written K} {finished : Finished K}
    (wrote : WroteOut vol source entry cached before written finished) {place : Location}
    (member : place ∈ wroteAt vol source entry) : (written.files place).isSome := by
  rcases List.mem_append.mp member with stem | note
  · obtain ⟨part, held, rfl⟩ := List.mem_map.mp stem
    exact wrote.there part held
  · split at note
    · cases note
    · rename_i scaled
      rw [List.mem_singleton.mp note, wrote.note, if_neg scaled]
      rfl

structure Dropped.Settled (vol : Volume) (sources : Set PathBuf) (dropped : Dropped) : Prop where
  source : dropped.source ∈ sources
  dir : dropped.dir = outputDir dropped.source
  inside : ∀ place ∈ dropped.wrote, ∃ name, place = vol.locate (outputDir dropped.source) ++ [name]

/-- What a discard takes of what lies in another folder: nothing, unless the folders cross. -/
theorem removeStems_apart {C : Type} {files : Files C} {source other : PathBuf}
    {stays : Location → Bool} (apart : ¬ Crosses vol source other) (name : FileName) :
    removeStems vol files (outputDir source) stays (vol.locate (outputDir other) ++ [name]) =
      files (vol.locate (outputDir other) ++ [name]) := by
  rw [removeStems_outputDir]
  refine Files.removeDirAll_of_not fun inside => apart ((crosses_iff vol source other).mpr ?_)
  exact (List.prefix_concat_iff.mp inside.1).resolve_left fun same => inside.2 same.symm

variable {files : Files (Content K)} {sources : Set PathBuf} {folders after : Folders K}

theorem write_cases {source : PathBuf} {entry : Entry K} {cached : Bool} {refuses : Call → Bool}
    (step : (dropSystem vol files).step folders (.write source entry cached refuses) = some after) :
    ∃ written finished, WroteOut vol source entry cached folders.files written finished ∧
      after = ⟨written.files, droppedAs vol source entry :: others folders.finished source⟩ := by
  simp only [dropSystem] at step
  split at step
  · rename_i written finished ended
    have wrote := writeOut_ok ended
    refine ⟨written, finished, wrote, ?_⟩
    rw [← Option.some.inj step, wrote.finished, droppedAs]
  · cases step

theorem write_step {source : PathBuf} {entry : Entry K} {cached : Bool} {refuses : Call → Bool}
    {before : Files (Content K)} {written : Written K} {finished : Finished K}
    (ended : writeOut vol refuses before source entry cached = .ok (written, finished))
    (listed : List Dropped) :
    (dropSystem vol files).step ⟨before, listed⟩ (.write source entry cached refuses) =
      some ⟨written.files, droppedAs vol source entry :: others listed source⟩ := by
  simp only [dropSystem, ended, (writeOut_ok ended).finished, droppedAs]

theorem discard_step {source : PathBuf} {entry : Entry K} {stays : Location → Bool}
    (before : Files (Content K)) (listed : List Dropped) :
    (dropSystem vol files).step ⟨before, droppedAs vol source entry :: listed⟩
        (.discard source stays) =
      some ⟨removeStems vol before (outputDir source) stays,
        others (droppedAs vol source entry :: listed) source⟩ := by
  have found : (droppedAs vol source entry :: listed).find?
      (fun dropped => dropped.source = source) = some (droppedAs vol source entry) :=
    List.find?_cons_of_pos (decide_eq_true rfl)
  simp only [dropSystem, found, Option.map_some]
  rfl

theorem discard_cases {source : PathBuf} {stays : Location → Bool}
    (step : (dropSystem vol files).step folders (.discard source stays) = some after) :
    ∃ dropped ∈ folders.finished, dropped.source = source ∧
      after =
        ⟨removeStems vol folders.files dropped.dir stays, others folders.finished source⟩ := by
  obtain ⟨dropped, found, rfl⟩ := Option.map_eq_some_iff.mp step
  have here := List.find?_some found
  exact ⟨dropped, List.mem_of_find?_eq_some found, of_decide_eq_true here, rfl⟩

theorem settled (run : (dropSystem vol files).Reaches (fun _ act => act.source ∈ sources)
    (dropSystem vol files).init folders) :
    ∀ dropped ∈ folders.finished, dropped.Settled vol sources := by
  refine run.invariant (P := fun t => ∀ dropped ∈ t.finished, dropped.Settled vol sources)
    (fun dropped member => (List.not_mem_nil member).elim) ?_
  intro before act after _ settled allowed step
  cases act with
  | write source entry cached refuses =>
      obtain ⟨written, finished, -, rfl⟩ := write_cases step
      intro dropped member
      rcases List.mem_cons.mp member with rfl | member
      · exact ⟨allowed, rfl, fun place => mem_wroteAt⟩
      · exact settled dropped (mem_others.mp member).1
  | discard source stays =>
      obtain ⟨dropped, -, -, rfl⟩ := discard_cases step
      exact fun dropped member => settled dropped (mem_others.mp member).1

/-- What every drop that was not discarded wrote is there, as long as no folders cross. -/
theorem kept_in_place (apart : ∀ source ∈ sources, ∀ other ∈ sources, source ≠ other →
      ¬ Crosses vol source other)
    (run : (dropSystem vol files).Reaches (fun _ act => act.source ∈ sources)
      (dropSystem vol files).init folders) :
    ∀ dropped ∈ folders.finished, ∀ place ∈ dropped.wrote, (folders.files place).isSome := by
  refine run.invariant
    (P := fun t => ∀ dropped ∈ t.finished, ∀ place ∈ dropped.wrote, (t.files place).isSome)
    (fun dropped member => (List.not_mem_nil member).elim) ?_
  intro before act after earlier kept allowed step
  cases act with
  | write source entry cached refuses =>
      obtain ⟨written, finished, wrote, rfl⟩ := write_cases step
      intro dropped member place held
      rcases List.mem_cons.mp member with rfl | member
      · exact isSome_wroteAt wrote held
      · exact wrote.kept place (kept dropped (mem_others.mp member).1 place held)
  | discard source stays =>
      obtain ⟨gone, listed, same, rfl⟩ := discard_cases step
      intro dropped member place held
      obtain ⟨member, other⟩ := mem_others.mp member
      obtain ⟨name, rfl⟩ := (settled earlier dropped member).inside place held
      -- A discard takes one folder, and what is left on the list lies outside of it.
      have crosses := apart source allowed _ (settled earlier dropped member).source other.symm
      have here := kept dropped member _ held
      simp only [(settled earlier gone listed).dir, same, removeStems_apart crosses, here]

theorem both_written {source other : PathBuf} (distinct : source ≠ other) :
    ∃ both : Files (Content K),
      (dropSystem vol (vocalsCached K vol)).Reaches
        (fun _ act => act.source ∈ ({source, other} : Set PathBuf))
        (dropSystem vol (vocalsCached K vol)).init
        ⟨both, [droppedAs vol source (vocalsAt (1 : K)), droppedAs vol other (vocalsAt (1 : K))]⟩ ∧
      ∀ place ∈ wroteAt vol other (vocalsAt (1 : K)), (both place).isSome := by
  obtain ⟨first, finished, ended⟩ := vocals_copied (vocalsCached_isSome K vol) other 1
  have wrote := writeOut_ok ended
  obtain ⟨second, finished', ended'⟩ :=
    vocals_copied (wrote.kept _ (vocalsCached_isSome K vol)) source 1
  -- The second write takes only drops of its own source off the list.
  have still : others [droppedAs vol other (vocalsAt (1 : K))] source =
      [droppedAs vol other (vocalsAt (1 : K))] :=
    List.filter_eq_self.mpr (List.forall_mem_singleton.mpr (decide_eq_true distinct.symm))
  refine ⟨second.files, .tail (a := .write source (vocalsAt 1) false fun _ => false)
    (.tail (a := .write other (vocalsAt 1) false fun _ => false) .refl (.inr rfl)
      (write_step ended [])) (.inl rfl) ?_, ?_⟩
  · rw [write_step ended']
    exact congrArg (fun rest => some (⟨second.files, _ :: rest⟩ : Folders K)) still
  · exact fun place member => (writeOut_ok ended').kept place (isSome_wroteAt wrote member)

theorem lost_of_crosses {source other : PathBuf} (distinct : source ≠ other)
    (crosses : Crosses vol source other) :
    ∃ folders after : Folders K,
      (dropSystem vol (vocalsCached K vol)).Reaches
        (fun _ act => act.source ∈ ({source, other} : Set PathBuf))
        (dropSystem vol (vocalsCached K vol)).init folders ∧
      (dropSystem vol (vocalsCached K vol)).step folders (.discard source fun _ => false) =
        some after ∧
      ∃ dropped ∈ folders.finished, dropped.source = other ∧ ∃ place ∈ dropped.wrote,
        (folders.files place).isSome ∧ after.files place = none := by
  obtain ⟨both, run, written⟩ := @both_written K _ _ vol _ _ distinct
  -- The stem of the other drop, which lies in or under the folder that goes.
  let place := vol.locate (outputDir other) ++ [vol.spelling vocalsFile.lossy]
  have listed : place ∈ (droppedAs vol other (vocalsAt (1 : K))).wrote :=
    List.mem_append_left _ List.mem_cons_self
  refine ⟨_, _, run, discard_step both _, _, List.mem_cons_of_mem _ (List.mem_singleton_self _),
    rfl, place, listed, written place listed, ?_⟩
  simp only [removeStems_outputDir]
  have under := (crosses_iff vol source other).mp crosses
  refine if_pos ⟨under.trans (List.prefix_append _ _), fun same => ?_, Bool.false_ne_true⟩
  have longer := congrArg List.length same
  rw [List.length_append, List.length_singleton] at longer
  exact absurd under.length_le (by omega)

theorem not_keepsOthers {sources : Set PathBuf} {source other : PathBuf} (member : source ∈ sources)
    (member' : other ∈ sources) (distinct : source ≠ other) (crosses : Crosses vol source other) :
    ¬ KeepsOthers K vol sources := by
  intro keeps
  obtain ⟨folders, after, run, step, dropped, listed, rfl, place, wrote, there, gone⟩ :=
    lost_of_crosses (K := K) distinct crosses
  have both : ∀ act : Act K, act.source ∈ ({source, dropped.source} : Set PathBuf) →
      act.source ∈ sources := by
    rintro act (same | same)
    · exact same ▸ member
    · exact same ▸ member'
  have kept := keeps _ _ (run.mono fun _ act => both act) source member _ _ step dropped listed
    distinct.symm place wrote
  rw [kept.2] at gone
  rw [gone] at there
  cases there

/-- Discarding takes only what the drop itself wrote, whatever the order, exactly when no two of
the files have folders that cross. -/
theorem keepsOthers_iff (vol : Volume) (sources : Set PathBuf) :
    KeepsOthers K vol sources ↔
      ∀ source ∈ sources, ∀ other ∈ sources, source ≠ other → ¬ Crosses vol source other := by
  constructor
  · exact fun keeps source member other member' distinct crosses =>
      not_keepsOthers member member' distinct crosses keeps
  · intro apart files folders run source member stays after step other listed distinct place wrote
    obtain ⟨gone, listed', same, rfl⟩ := discard_cases step
    have here := settled run other listed
    obtain ⟨name, rfl⟩ := here.inside place wrote
    have crosses := apart source member _ here.source distinct.symm
    refine ⟨kept_in_place apart run other listed _ wrote, ?_⟩
    simp only [(settled run gone listed').dir, same, removeStems_apart crosses]

end

def otherTrackFile : PathBuf := ⟨[.rootDir, .normal ⟨utf8 "a.mp3", by decide⟩]⟩

theorem titles_alike : titleOf trackFile = titleOf otherTrackFile := by
  have stems : trackFile.fileStem = some (utf8 "a") ∧
      otherTrackFile.fileStem = some (utf8 "a") := by
    decide
  rw [titleOf, titleOf, stems.1, stems.2]

/-- A track in two formats, side by side: discarding the one takes the other's stems. -/
theorem same_title_is_deleted :
    trackFile ≠ otherTrackFile ∧ ¬ KeepsOthers ℚ rootVolume {trackFile, otherTrackFile} := by
  have distinct : trackFile ≠ otherTrackFile := by decide
  have names : stemsName (titleOf trackFile) (slash_titleOf _) =
      stemsName (titleOf otherTrackFile) (slash_titleOf _) := by
    simp only [titles_alike]
  exact ⟨distinct, not_keepsOthers (.inl rfl) (.inr rfl) distinct (.inl ⟨rfl, names⟩)⟩

end Stemd.Server.Drops
