import Stemd.Models.Download

/-! Where the files of a preset are loaded from.

Presence decides which directory that is, and the directory decides whether contents are
checked: the download cache's are, wherever the preset is complete there, and a preset that
is complete nowhere is fetched into it around what is there already. -/

set_option autoImplicit false

namespace Stemd.Models

open Stemd.Semantics
open Stemd.Semantics.Buffered
open Stemd.Semantics.Framing

/-- Paths, the directories they lead to, and the one path each has that the system picks. -/
structure Paths (Path Dir : Type) where
  place : Path → Dir
  canonicalize : Path → Path
  place_canonicalize : ∀ path, place (canonicalize path) = place path

inductive ResolveError where
  | notBuiltIn (marker : String)
  | offline (missing : List String)
  | offlineMismatch (bad : List String)
  | fetching (error : FetchError)
  | unverified (bad : List String)
  | incomplete (artefact : String)
  deriving DecidableEq, Repr

variable {Path Dir : Type} [DecidableEq Path] [DecidableEq Dir]

/-- Every file is present, whatever it holds. -/
def isComplete (disk : Disk Dir) (dir : Dir) (source : ModelSource) : Bool :=
  source.files.all fun file => (disk.read dir file.name).isSome

section Files

variable (sha256 : Bytes → Bytes)

def matchesPin (file : RemoteFile) (content : Bytes) : Bool :=
  Server.lowerHex (sha256 content) = file.sha256

/-- What is absent or does not match its pinned digest. -/
def mismatched (disk : Disk Dir) (dir : Dir) (source : ModelSource) : List RemoteFile :=
  source.files.filter fun file => !(disk.read dir file.name).any (matchesPin sha256 file)

/-- Download whatever is missing. Files already present are left alone. -/
def fetch (weather : RemoteFile → Weather) (dir : Dir) :
    List RemoteFile → Disk Dir → Except FetchError Unit × Disk Dir
  | [], disk => (.ok (), disk)
  | file :: rest, disk =>
      if (disk.read dir file.name).isSome then fetch weather dir rest disk
      else match fetchOne sha256 disk dir file (weather file) with
        | (.ok (), disk') => fetch weather dir rest disk'
        | (.error error, disk') => (.error error, disk')

/-- Check a directory against the pinned digests, repairing the cache if it can. -/
def verify (paths : Paths Path Dir) (weather : RemoteFile → Weather) (disk : Disk Dir)
    (dir cache : Path) (source : ModelSource) (offline : Bool) :
    Except ResolveError Unit × Disk Dir :=
  let bad := mismatched sha256 disk (paths.place dir) source
  if bad = [] then (.ok (), disk)
  else if dir ≠ cache then (.ok (), disk)
  else if offline then (.error (.offlineMismatch (bad.map RemoteFile.name)), disk)
  else
    let cleared := bad.foldl (fun disk file => disk.unlink (paths.place dir) file.name) disk
    match fetch sha256 weather (paths.place cache) source.files cleared with
    | (.error error, disk') => (.error (.fetching error), disk')
    | (.ok (), disk') =>
        let stillBad := mismatched sha256 disk' (paths.place dir) source
        if stillBad = [] then (.ok (), disk')
        else (.error (.unverified (stillBad.map RemoteFile.name)), disk')

/-- Download a preset into the cache and confirm it landed. -/
def fetchPreset (paths : Paths Path Dir) (weather : RemoteFile → Weather) (disk : Disk Dir)
    (cache : Path) (artefact : String) (source : ModelSource) :
    Except ResolveError Path × Disk Dir :=
  match fetch sha256 weather (paths.place cache) source.files disk with
  | (.error error, disk') => (.error (.fetching error), disk')
  | (.ok (), disk') =>
      if isComplete disk' (paths.place cache) source then (.ok cache, disk')
      else (.error (.incomplete artefact), disk')

/-- The launch: find the artefact, downloading it if this is a first run. -/
def resolveModels (paths : Paths Path Dir) (pins : Pins) (weather : RemoteFile → Weather)
    (disk : Disk Dir) (dirs : List Path) (cache : Path) (preset : Option Preset)
    (artefact : String) (offline : Bool) : Except ResolveError Path × Disk Dir :=
  let marker := artefact ++ weightsExtension
  match preset with
  | none =>
      match dirs.find? fun dir => (disk.read (paths.place dir) marker).isSome with
      | some dir => (.ok (paths.canonicalize dir), disk)
      | none => (.error (.notBuiltIn marker), disk)
  | some preset =>
      let source := preset.source pins
      match dirs.find? fun dir => isComplete disk (paths.place dir) source with
      | some dir =>
          match verify sha256 paths weather disk dir cache source offline with
          | (.ok (), disk') => (.ok (paths.canonicalize dir), disk')
          | (.error error, disk') => (.error error, disk')
      | none =>
          if offline then
            (.error (.offline ((source.files.filter fun file =>
              (disk.read (paths.place cache) file.name).isNone).map RemoteFile.name)), disk)
          else fetchPreset sha256 paths weather disk cache preset.artefact source

/-- A switch: the directory with a copy of the preset, downloading it first if there is none. -/
def stageArtefact (paths : Paths Path Dir) (pins : Pins) (weather : RemoteFile → Weather)
    (disk : Disk Dir) (dirs : List Path) (cache : Path) (preset : Preset) (offline : Bool) :
    Except ResolveError Path × Disk Dir :=
  let source := preset.source pins
  match dirs.find? fun dir => isComplete disk (paths.place dir) source with
  | some dir =>
      match verify sha256 paths weather disk dir cache source offline with
      | (.ok (), disk') => (.ok dir, disk')
      | (.error error, disk') => (.error error, disk')
  | none =>
      if offline then (.error (.offline [preset.artefact]), disk)
      else match fetch sha256 weather (paths.place cache) source.files disk with
        | (.error error, disk') => (.error (.fetching error), disk')
        | (.ok (), disk') => (.ok cache, disk')

def Intact (disk : Disk Dir) (dir : Dir) (source : ModelSource) : Prop :=
  ∀ file ∈ source.files, ∃ content, disk.read dir file.name = some content ∧
    matchesPin sha256 file content = true

theorem mismatched_eq_nil {disk : Disk Dir} {dir : Dir} {source : ModelSource} :
    mismatched sha256 disk dir source = [] ↔ Intact sha256 disk dir source := by
  simp [mismatched, Intact, List.filter_eq_nil_iff, Option.any_eq_true]

def landing (network : RemoteFile → Option Body) (file : RemoteFile) : Weather :=
  ⟨network file, true, [], true, true⟩

def Supplied (network : RemoteFile → Option Body) (file : RemoteFile) : Prop :=
  ∃ body, network file = some body ∧ body.Whole ∧ matchesPin sha256 file body.bytes = true

variable {sha256} {network : RemoteFile → Option Body}

theorem fetchOne_supplied {file : RemoteFile} (supplied : Supplied sha256 network file)
    (disk : Disk Dir) (dir : Dir) :
    ∃ disk' content, fetchOne sha256 disk dir file (landing network file) = (.ok (), disk') ∧
      disk'.read dir file.name = some content ∧ matchesPin sha256 file content = true ∧
      ∀ name, name ≠ file.name → name ≠ partialName file.name →
        disk'.read dir name = disk.read dir name := by
  obtain ⟨body, response, whole, pinned⟩ := supplied
  obtain ⟨sink, copied, calm⟩ := downloadSink_calm whole
  have arrives : Arrives sha256 file (landing network file) body :=
    ⟨response, rfl, of_decide_eq_true pinned, rfl⟩
  have lands : Write.written sink.inner.dropped = body.bytes := by
    rw [(BufWriter.written_dropped_eq_iff sink.inner).mpr (by rw [BufWriter.flushBuf_calm calm]),
      (downloadSink_copied copied).2]
  refine ⟨_, body.bytes, fetchOne_arrives arrives copied disk dir, ?_, pinned, ?_⟩
  · rw [lands]
    exact Disk.read_move_target (Disk.read_write.trans (if_pos ⟨rfl, rfl⟩))
  · intro name other other'
    rw [Disk.read_move_other (fun same => other' same.2.symm) (fun same => other same.2.symm),
      Disk.read_write, if_neg fun same => other' same.2.symm]

theorem fetchOne_unsupplied {file : RemoteFile} (unsupplied : ¬ Supplied sha256 network file)
    (disk : Disk Dir) (dir : Dir) :
    ∃ error disk', fetchOne sha256 disk dir file (landing network file) = (.error error, disk') := by
  have refused : ∀ body sink, Arrives sha256 file (landing network file) body →
      copy body.broken body.reads (downloadSink []) ≠ (.ok (), sink) := by
    intro body sink arrives copied
    have calm : (downloadSink []).inner.inner.outcomes = [] := rfl
    have whole : body.Whole := (copy_calm calm).1.mp (congrArg Prod.fst copied)
    exact unsupplied ⟨body, arrives.response, whole, decide_eq_true arrives.pinned⟩
  obtain ⟨error, disk', failed, -⟩ := fetchOne_refused refused disk dir
  exact ⟨error, disk', failed⟩

structure Separate (files : List RemoteFile) : Prop where
  names : files.Pairwise fun file other => file.name ≠ other.name
  partials : ∀ file ∈ files, ∀ other ∈ files, file.name ≠ partialName other.name

theorem Separate.tail {file : RemoteFile} {rest : List RemoteFile}
    (separate : Separate (file :: rest)) : Separate rest :=
  ⟨separate.names.tail, fun f member g member' =>
    separate.partials f (List.mem_cons_of_mem _ member) g (List.mem_cons_of_mem _ member')⟩

variable (sha256) in
structure Fetched (network : RemoteFile → Option Body) (dir : Dir) (files : List RemoteFile)
    (disk disk' : Disk Dir) : Prop where
  supplied : ∀ file ∈ files, disk.read dir file.name = none → Supplied sha256 network file
  kept : ∀ file ∈ files, ∀ content, disk.read dir file.name = some content →
    disk'.read dir file.name = some content
  pinned : ∀ file ∈ files, disk.read dir file.name = none →
    ∃ content, disk'.read dir file.name = some content ∧ matchesPin sha256 file content = true
  others : ∀ name, (∀ file ∈ files, name ≠ file.name ∧ name ≠ partialName file.name) →
    disk'.read dir name = disk.read dir name

variable {dir : Dir} {files : List RemoteFile} {disk disk' : Disk Dir}

theorem Fetched.cons {file : RemoteFile} {rest : List RemoteFile} {between : Disk Dir}
    (separate : Separate (file :: rest))
    (first : Fetched sha256 network dir [file] disk between)
    (later : Fetched sha256 network dir rest between disk') :
    Fetched sha256 network dir (file :: rest) disk disk' := by
  have mine : disk'.read dir file.name = between.read dir file.name :=
    later.others file.name fun other member =>
      ⟨List.rel_of_pairwise_cons separate.names member,
        separate.partials file List.mem_cons_self other (List.mem_cons_of_mem _ member)⟩
  have theirs : ∀ other ∈ rest, between.read dir other.name = disk.read dir other.name := by
    intro other member
    refine first.others other.name fun one only => ?_
    obtain rfl := List.mem_singleton.mp only
    exact ⟨(List.rel_of_pairwise_cons separate.names member).symm,
      separate.partials other (List.mem_cons_of_mem _ member) one List.mem_cons_self⟩
  constructor
  · intro other member absent
    rcases List.mem_cons.mp member with rfl | member
    · exact first.supplied other List.mem_cons_self absent
    · exact later.supplied other member ((theirs other member).trans absent)
  · intro other member content found
    rcases List.mem_cons.mp member with rfl | member
    · exact mine.trans (first.kept other List.mem_cons_self content found)
    · exact later.kept other member content ((theirs other member).trans found)
  · intro other member absent
    rcases List.mem_cons.mp member with rfl | member
    · obtain ⟨content, found, pinned⟩ := first.pinned other List.mem_cons_self absent
      exact ⟨content, mine.trans found, pinned⟩
    · exact later.pinned other member ((theirs other member).trans absent)
  · intro name apart
    rw [later.others name fun other member => apart other (List.mem_cons_of_mem _ member)]
    refine first.others name fun one only => ?_
    obtain rfl := List.mem_singleton.mp only
    exact apart one List.mem_cons_self

theorem fetch_cons {file : RemoteFile} {rest : List RemoteFile}
    (available : disk.read dir file.name = none → Supplied sha256 network file) :
    ∃ between, Fetched sha256 network dir [file] disk between ∧
      fetch sha256 (landing network) dir (file :: rest) disk =
        fetch sha256 (landing network) dir rest between := by
  cases found : disk.read dir file.name with
  | some content =>
      refine ⟨disk, ⟨?_, ?_, ?_, fun _ _ => rfl⟩, by simp [fetch, found]⟩ <;>
        simp [found]
  | none =>
      obtain ⟨between, content, fetched, landed, pinned, others⟩ :=
        fetchOne_supplied (available found) disk dir
      refine ⟨between, ⟨?_, ?_, ?_, ?_⟩, by simp [fetch, found, fetched]⟩
      · simpa [found] using available found
      · simp [found]
      · simpa [landed] using fun _ => pinned
      · simpa using others

theorem fetch_fetched (separate : Separate files)
    (done : fetch sha256 (landing network) dir files disk = (.ok (), disk')) :
    Fetched sha256 network dir files disk disk' := by
  induction files generalizing disk with
  | nil =>
      obtain ⟨-, rfl⟩ := Prod.mk.inj done
      exact ⟨by simp, by simp, by simp, fun _ _ => rfl⟩
  | cons file rest ih =>
      have available : disk.read dir file.name = none → Supplied sha256 network file := by
        intro absent
        by_contra unsupplied
        obtain ⟨error, _, failed⟩ := fetchOne_unsupplied unsupplied disk dir
        simp [fetch, absent, failed] at done
      obtain ⟨between, first, step⟩ := fetch_cons available
      exact first.cons separate (ih separate.tail (step.symm.trans done))

theorem fetch_supplied (separate : Separate files)
    (supplied : ∀ file ∈ files, disk.read dir file.name = none → Supplied sha256 network file) :
    ∃ disk', fetch sha256 (landing network) dir files disk = (.ok (), disk') := by
  induction files generalizing disk with
  | nil => exact ⟨disk, rfl⟩
  | cons file rest ih =>
      obtain ⟨between, first, step⟩ := fetch_cons (supplied file List.mem_cons_self)
      rw [step]
      refine ih separate.tail fun other member absent =>
        supplied other (List.mem_cons_of_mem _ member) ?_
      rw [← first.others other.name fun one only => ?_]
      · exact absent
      · obtain rfl := List.mem_singleton.mp only
        exact ⟨(List.rel_of_pairwise_cons separate.names member).symm,
          separate.partials other (List.mem_cons_of_mem _ member) one List.mem_cons_self⟩

theorem Fetched.isSome (fetched : Fetched sha256 network dir files disk disk') :
    ∀ file ∈ files, (disk'.read dir file.name).isSome = true := by
  intro file member
  cases found : disk.read dir file.name with
  | some content => rw [fetched.kept file member content found, Option.isSome_some]
  | none =>
      obtain ⟨content, landed, -⟩ := fetched.pinned file member found
      rw [landed, Option.isSome_some]

theorem Fetched.intact_iff {source : ModelSource}
    (fetched : Fetched sha256 network dir source.files disk disk') :
    Intact sha256 disk' dir source ↔ ∀ file ∈ source.files, ∀ content,
      disk.read dir file.name = some content → matchesPin sha256 file content = true := by
  constructor
  · intro intact file member content found
    obtain ⟨content', landed, pinned⟩ := intact file member
    rw [fetched.kept file member content found] at landed
    exact Option.some.inj landed ▸ pinned
  · intro sound file member
    cases found : disk.read dir file.name with
    | some content =>
        exact ⟨content, fetched.kept file member content found, sound file member content found⟩
    | none => exact fetched.pinned file member found

theorem separate_source (pins : Pins) (preset : Preset) : Separate (preset.source pins).files := by
  have names : (preset.source pins).files.map RemoteFile.name = preset.weights.map Weights.name :=
    List.map_map
  constructor
  · rw [← List.pairwise_map, names]
    cases preset <;> decide
  · intro file member other member'
    have file' := List.mem_map_of_mem (f := RemoteFile.name) member
    have other' := List.mem_map_of_mem (f := RemoteFile.name) member'
    rw [names] at file' other'
    generalize file.name = name at *
    generalize other.name = name' at *
    revert name name'
    cases preset <;> decide

theorem verify_elsewhere {paths : Paths Path Dir} {weather : RemoteFile → Weather}
    {dir cache : Path} (elsewhere : dir ≠ cache) (disk : Disk Dir) (source : ModelSource)
    (offline : Bool) :
    verify sha256 paths weather disk dir cache source offline = (.ok (), disk) := by
  unfold verify
  by_cases clean : mismatched sha256 disk (paths.place dir) source = []
  · simp [clean]
  · simp [clean, elsewhere]

theorem verify_cache {paths : Paths Path Dir} {weather : RemoteFile → Weather} {cache : Path}
    {disk disk' : Disk Dir} {source : ModelSource} {offline : Bool}
    (passed : verify sha256 paths weather disk cache cache source offline = (.ok (), disk')) :
    Intact sha256 disk' (paths.place cache) source := by
  unfold verify at passed
  dsimp only at passed
  split at passed
  · rename_i clean
    obtain ⟨-, rfl⟩ := Prod.mk.inj passed
    exact (mismatched_eq_nil sha256).mp clean
  · rw [if_neg (by simp)] at passed
    split at passed
    · cases passed
    · split at passed
      · cases passed
      · split at passed
        · rename_i clean
          obtain ⟨-, rfl⟩ := Prod.mk.inj passed
          exact (mismatched_eq_nil sha256).mp clean
        · cases passed

variable (sha256)

/-- Whoever is handed the cache is handed the pinned files. -/
def Verified (paths : Paths Path Dir) (cache : Path) (source : ModelSource)
    (result : Except ResolveError Path × Disk Dir) : Prop :=
  match result with
  | (.ok dir, disk) => paths.place dir = paths.place cache →
      Intact sha256 disk (paths.place cache) source
  | (.error _, _) => True

/-- Neither is the cache found under another path with a file that does not match its pin,
nor is such a file there when the rest of the preset is fetched. -/
def Guarded (paths : Paths Path Dir) (network : RemoteFile → Option Body) (disk : Disk Dir)
    (dirs : List Path) (cache : Path) (source : ModelSource) (offline : Bool) : Prop :=
  match dirs.find? fun dir => isComplete disk (paths.place dir) source with
  | some dir => paths.place dir = paths.place cache → dir = cache ∨
      Intact sha256 disk (paths.place cache) source
  | none => offline = false →
      (∀ file ∈ source.files, disk.read (paths.place cache) file.name = none →
        Supplied sha256 network file) →
      ∀ file ∈ source.files, ∀ content, disk.read (paths.place cache) file.name = some content →
        matchesPin sha256 file content = true

variable {sha256}

/-- A directory in which the preset was found, by any path to it. -/
theorem verified_found_iff {paths : Paths Path Dir} {weather : RemoteFile → Weather}
    {dir handed cache : Path} {source : ModelSource} {offline : Bool}
    (same : paths.place handed = paths.place dir) :
    Verified sha256 paths cache source
        (match verify sha256 paths weather disk dir cache source offline with
          | (.ok (), disk') => (.ok handed, disk')
          | (.error error, disk') => (.error error, disk')) ↔
      (paths.place dir = paths.place cache → dir = cache ∨
        Intact sha256 disk (paths.place cache) source) := by
  by_cases cached : dir = cache
  · subst cached
    refine iff_of_true ?_ fun _ => .inl rfl
    split
    · rename_i passed
      exact fun _ => verify_cache passed
    · trivial
  · rw [verify_elsewhere cached]
    simp only [Verified, same, cached, false_or]

omit [DecidableEq Path] in
/-- The cache, once what was missing has been fetched. -/
theorem verified_fetched_iff {paths : Paths Path Dir} {cache : Path} {source : ModelSource}
    (separate : Separate source.files)
    (result : Except FetchError Unit × Disk Dir → Except ResolveError Path × Disk Dir)
    (handed : ∀ disk', (∀ file ∈ source.files,
      (disk'.read (paths.place cache) file.name).isSome = true) →
        result (.ok (), disk') = (.ok cache, disk'))
    (stopped : ∀ error disk', ∃ error', result (.error error, disk') = (.error error', disk')) :
    Verified sha256 paths cache source
        (result (fetch sha256 (landing network) (paths.place cache) source.files disk)) ↔
      ((∀ file ∈ source.files, disk.read (paths.place cache) file.name = none →
        Supplied sha256 network file) →
      ∀ file ∈ source.files, ∀ content, disk.read (paths.place cache) file.name = some content →
        matchesPin sha256 file content = true) := by
  by_cases supplied : ∀ file ∈ source.files, disk.read (paths.place cache) file.name = none →
      Supplied sha256 network file
  · obtain ⟨disk', done⟩ := fetch_supplied separate supplied
    have fetched := fetch_fetched separate done
    rw [done, handed disk' fetched.isSome]
    simp only [Verified, true_implies, fetched.intact_iff]
    exact ⟨fun sound _ => sound, fun guarded => guarded supplied⟩
  · refine iff_of_true ?_ fun all => absurd all supplied
    cases done : fetch sha256 (landing network) (paths.place cache) source.files disk with
    | mk outcome disk' =>
        cases outcome with
        | ok => exact absurd (fetch_fetched separate done).supplied supplied
        | error error =>
            obtain ⟨error', failed⟩ := stopped error disk'
            rw [failed]
            trivial

/-- At a launch and at a switch alike, the files handed over from the cache are the pinned
ones exactly if the preset is guarded there. -/
theorem verified_iff (paths : Paths Path Dir) (pins : Pins) (network : RemoteFile → Option Body)
    (disk : Disk Dir) (dirs : List Path) (cache : Path) (preset : Preset) (artefact : String)
    (offline : Bool) :
    (Verified sha256 paths cache (preset.source pins) (resolveModels sha256 paths pins
        (landing network) disk dirs cache (some preset) artefact offline) ↔
      Guarded sha256 paths network disk dirs cache (preset.source pins) offline) ∧
    (Verified sha256 paths cache (preset.source pins) (stageArtefact sha256 paths pins
        (landing network) disk dirs cache preset offline) ↔
      Guarded sha256 paths network disk dirs cache (preset.source pins) offline) := by
  have separate := separate_source pins preset
  unfold resolveModels stageArtefact Guarded
  dsimp only
  cases dirs.find? fun dir => isComplete disk (paths.place dir) (preset.source pins) with
  | some dir =>
      exact ⟨verified_found_iff (paths.place_canonicalize dir), verified_found_iff rfl⟩
  | none =>
      cases offline with
      | true => exact ⟨by simp [Verified], by simp [Verified]⟩
      | false =>
          simp only [Bool.false_eq_true, if_false, true_implies]
          constructor
          · unfold fetchPreset
            exact verified_fetched_iff separate (fun fetched : _ × Disk Dir => match fetched with
              | (.error error, disk') => (.error (.fetching error), disk')
              | (.ok (), disk') =>
                  if isComplete disk' (paths.place cache) (preset.source pins) then (.ok cache, disk')
                  else (.error (.incomplete preset.artefact), disk'))
              (fun disk' present => if_pos (List.all_eq_true.mpr present)) fun error _ => ⟨_, rfl⟩
          · exact verified_fetched_iff separate (fun fetched : _ × Disk Dir => match fetched with
              | (.error error, disk') => (.error (.fetching error), disk')
              | (.ok (), disk') => (.ok cache, disk'))
              (fun _ _ => rfl) fun error _ => ⟨_, rfl⟩

end Files

def truncatedCache : Disk String :=
  Disk.empty.write "models" ⟨Weights.htdemucsFt.name, []⟩

def plainPaths : Paths String String := ⟨id, id, fun _ => rfl⟩

/-- Fetching the other half of Quality hands over the damaged one with it. -/
theorem truncated_weights_are_handed_over :
    ¬ ∀ (sha256 : Bytes → Bytes) (paths : Paths String String) (pins : Pins)
      (network : RemoteFile → Option Body) (disk : Disk String) (dirs : List String)
      (cache : String) (preset : Preset) (artefact : String) (offline : Bool),
      Verified sha256 paths cache (preset.source pins) (resolveModels sha256 paths pins
          (landing network) disk dirs cache (some preset) artefact offline) ∧
        Verified sha256 paths cache (preset.source pins) (stageArtefact sha256 paths pins
          (landing network) disk dirs cache preset offline) := by
  intro verified
  let pins : Pins := fun _ => abc.sha256
  let network : RemoteFile → Option Body := fun _ => some ⟨[[97, 98, 99]], false⟩
  let source := Preset.quality.source pins
  have switch := (verified recordedFileDigest plainPaths pins network truncatedCache ["models"]
    "models" .quality "bs_polarformer" false).2
  have nowhere : ["models"].find? (fun dir =>
      isComplete truncatedCache (plainPaths.place dir) source) = none := by decide
  have supplied : ∀ file ∈ source.files, truncatedCache.read "models" file.name = none →
      Supplied recordedFileDigest network file := by
    intro file member _
    obtain ⟨weights, -, rfl⟩ := List.mem_map.mp member
    refine ⟨_, rfl, fun broken => (by cases broken), decide_eq_true ?_⟩
    change Server.lowerHex (recordedFileDigest [97, 98, 99]) = abc.sha256
    decide
  have separate := separate_source pins .quality
  obtain ⟨disk', done⟩ := fetch_supplied separate supplied
  have member : Weights.htdemucsFt.remote pins ∈ source.files := List.mem_map_of_mem (by decide)
  have kept : disk'.read "models" Weights.htdemucsFt.name = some [] :=
    (fetch_fetched separate done).kept _ member [] (by decide)
  have handed : stageArtefact recordedFileDigest plainPaths pins (landing network) truncatedCache
      ["models"] "models" .quality false = (.ok "models", disk') := by
    have fetched : fetch recordedFileDigest (landing network) (plainPaths.place "models")
      source.files truncatedCache = (.ok (), disk') := done
    simp only [stageArtefact, nowhere, source, fetched, Bool.false_eq_true, if_false]
  rw [handed] at switch
  obtain ⟨content, found, pinned⟩ := switch rfl _ member
  obtain rfl := Option.some.inj (kept.symm.trans found)
  have digest : Server.lowerHex (recordedFileDigest []) = abc.sha256 := of_decide_eq_true pinned
  exact absurd digest (by decide)

end Stemd.Models
