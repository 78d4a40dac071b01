import Stemd.Models.Preset
import Stemd.Semantics.Buffered
import Stemd.Semantics.Disk
import Stemd.Server.CacheKey

/-! Fetching missing files of weights.

A file is written to a temporary sibling, hashed as it is streamed, and renamed into place
if the stream was the pinned one. What reaches the file is a matter of the buffered writer
in between, which is flushed for the last time when it is dropped. -/

set_option autoImplicit false

namespace Stemd.Models

open Stemd.Semantics
open Stemd.Semantics.Buffered
open Stemd.Semantics.Framing

def readChunk : Nat := 2 ^ 20

structure Hashing (W : Type) where
  inner : W
  /-- What the hasher has been given. -/
  hashed : Bytes

namespace Hashing

variable {W : Type} [Write W]

def new (inner : W) : Hashing W := ⟨inner, []⟩

def write (sink : Hashing W) (buf : Bytes) : Except IoError Nat × Hashing W :=
  match Write.write sink.inner buf with
  | (.ok count, inner) => (.ok count, ⟨inner, sink.hashed ++ buf.take count⟩)
  | (.error error, inner) => (.error error, { sink with inner := inner })

instance : Write (Hashing W) where
  write := write
  written := hashed
  patience sink := Write.patience sink.inner
  took {sink sink' buf count} done := by
    unfold write at done
    split at done
    · rename_i step
      obtain ⟨same, rfl⟩ := Prod.mk.inj done
      obtain rfl := Except.ok.inj same
      obtain ⟨bound, -, fewer⟩ := Write.took step
      exact ⟨bound, rfl, fewer⟩
    · cases done
  refused {sink sink' buf error} done := by
    unfold write at done
    split at done
    · cases done
    · rename_i step
      obtain ⟨same, rfl⟩ := Prod.mk.inj done
      obtain rfl := Except.error.inj same
      obtain ⟨-, fewer⟩ := Write.refused step
      exact ⟨rfl, fewer⟩

def finish (sha256 : Bytes → Bytes) (sink : Hashing W) : String × Nat :=
  (Server.lowerHex (sha256 sink.hashed), sink.hashed.length)

def Faithful (sink : Hashing W) : Prop := Write.written sink.inner = sink.hashed

theorem Faithful.write {sink sink' : Hashing W} {buf : Bytes} {result : Except IoError Nat}
    (done : Write.write sink buf = (result, sink')) (faithful : sink.Faithful) :
    sink'.Faithful := by
  change sink.write buf = (result, sink') at done
  unfold Hashing.write at done
  split at done
  · rename_i step
    obtain ⟨-, rfl⟩ := Prod.mk.inj done
    obtain ⟨-, written, -⟩ := Write.took step
    simp only [Faithful, written, faithful.symm]
  · rename_i step
    obtain ⟨-, rfl⟩ := Prod.mk.inj done
    obtain ⟨written, -⟩ := Write.refused step
    simp only [Faithful, written, faithful.symm]

end Hashing

/-- The body of a response: what is read in turn, and whether the connection breaks then
rather than end. -/
structure Body where
  reads : List Bytes
  broken : Bool
  deriving DecidableEq

/-- All that is read before the end, which an empty read is. -/
def Body.bytes (body : Body) : Bytes := (body.reads.takeWhile (· ≠ [])).flatten

def copy {W : Type} [Write W] (broken : Bool) : List Bytes → W → Except IoError Unit × W
  | [], w => if broken then (.error .other, w) else (.ok (), w)
  | chunk :: rest, w =>
      if chunk = [] then (.ok (), w)
      else match writeAll w chunk with
        | (.ok (), w', _) => copy broken rest w'
        | (.error error, w', _) => (.error error, w')

def downloadSink (outcomes : List Outcome) : Hashing (BufWriter Handle) :=
  Hashing.new (BufWriter.withCapacity readChunk ⟨[], outcomes⟩)

/-- Copy a body into a file: the digest and length of what was streamed, and what the file
holds once the writer has been dropped. -/
def streamToFile (sha256 : Bytes → Bytes) (body : Body) (outcomes : List Outcome) :
    Except IoError (String × Nat) × Bytes :=
  match copy body.broken body.reads (downloadSink outcomes) with
  | (.ok (), sink) => (.ok (sink.finish sha256), Write.written sink.inner.dropped)
  | (.error error, sink) => (.error error, Write.written sink.inner.dropped)

/-- What a download meets with: the response, if there is one, and how the system takes
each of its requests. -/
structure Weather where
  response : Option Body
  creates : Bool
  outcomes : List Outcome
  removes : Bool
  renames : Bool
  deriving DecidableEq

inductive FetchError where
  | get (url : String)
  | creating (name : String)
  | writing (name : String) (error : IoError)
  | checksum (name expected got : String)
  | publishing (name : String)
  deriving DecidableEq, Repr

def partialName (name : String) : String := name ++ ".part"

variable {Dir : Type} [DecidableEq Dir]

/-- Fetch one file, verify it against its pinned digest, and publish it. -/
def fetchOne (sha256 : Bytes → Bytes) (disk : Disk Dir) (dir : Dir) (file : RemoteFile)
    (weather : Weather) : Except FetchError Unit × Disk Dir :=
  match weather.response with
  | none => (.error (.get file.url), disk)
  | some body =>
      let part := partialName file.name
      if weather.creates then
        match streamToFile sha256 body weather.outcomes with
        | (.error error, content) =>
            (.error (.writing part error), disk.write dir ⟨part, content⟩)
        | (.ok (digest, _), content) =>
            let disk := disk.write dir ⟨part, content⟩
            if digest ≠ file.sha256 then
              (.error (.checksum file.name file.sha256 digest),
                if weather.removes then disk.unlink dir part else disk)
            else if weather.renames then (.ok (), disk.move dir part file.name)
            else (.error (.publishing file.name), disk)
      else (.error (.creating part), disk)

theorem copy_written {W : Type} [Write W] {broken : Bool} {reads : List Bytes} {w w' : W}
    (done : copy broken reads w = (.ok (), w')) :
    Write.written w' = Write.written w ++ (reads.takeWhile (· ≠ [])).flatten := by
  induction reads generalizing w with
  | nil =>
      unfold copy at done
      split at done
      · cases done
      · obtain ⟨-, rfl⟩ := Prod.mk.inj done
        simp
  | cons chunk rest ih =>
      unfold copy at done
      split at done
      · rename_i last
        obtain ⟨-, rfl⟩ := Prod.mk.inj done
        simp [last]
      · rename_i more
        have all := writeAll_spec w chunk
        split at done
        · rename_i taken
          rw [taken] at all
          have whole : Write.written _ ++ _ = _ := all.whole
          rw [all.done.mp rfl, List.append_nil] at whole
          rw [ih done, whole]
          simp [more]
        · cases done

theorem copy_keeps {W : Type} [Write W] {P : W → Prop}
    (keep : ∀ w buf result w', Write.write w buf = (result, w') → P w → P w') {broken : Bool}
    {reads : List Bytes} {w : W} (start : P w) : P (copy broken reads w).2 := by
  induction reads generalizing w with
  | nil =>
      unfold copy
      split <;> exact start
  | cons chunk rest ih =>
      have kept := writeAll_keeps keep start chunk
      unfold copy
      split
      · exact start
      · split
        · rename_i taken
          rw [taken] at kept
          exact ih kept
        · rename_i taken
          rw [taken] at kept
          exact kept

theorem downloadSink_copied {body : Body} {outcomes : List Outcome}
    {sink : Hashing (BufWriter Handle)}
    (done : copy body.broken body.reads (downloadSink outcomes) = (.ok (), sink)) :
    sink.hashed = body.bytes ∧ Write.written sink.inner = body.bytes := by
  have hashed : sink.hashed = body.bytes := copy_written done
  have faithful : (copy body.broken body.reads (downloadSink outcomes)).2.Faithful :=
    copy_keeps (fun _ _ _ _ step => Hashing.Faithful.write step) rfl
  rw [done] at faithful
  exact ⟨hashed, Eq.trans faithful hashed⟩

def Body.Whole (body : Body) : Prop := body.broken = true → [] ∈ body.reads

theorem Hashing.write_calm {sink : Hashing (BufWriter Handle)}
    (calm : sink.inner.inner.outcomes = []) (buf : Bytes) :
    (Write.write sink buf).1 = .ok buf.length ∧
      (Write.write sink buf).2.inner.inner.outcomes = [] := by
  obtain ⟨took, calm'⟩ := BufWriter.write_calm calm buf
  change (sink.write buf).1 = _ ∧ (sink.write buf).2.inner.inner.outcomes = []
  unfold Hashing.write
  split
  · rename_i step
    rw [step] at took calm'
    exact ⟨took, calm'⟩
  · rename_i step
    cases (congrArg Prod.fst step).symm.trans took

theorem copy_calm {broken : Bool} {reads : List Bytes} {sink : Hashing (BufWriter Handle)}
    (calm : sink.inner.inner.outcomes = []) :
    ((copy broken reads sink).1 = .ok () ↔ (broken = true → [] ∈ reads)) ∧
      (copy broken reads sink).2.inner.inner.outcomes = [] := by
  induction reads generalizing sink with
  | nil => cases broken <;> simp [copy, calm]
  | cons chunk rest ih =>
      by_cases last : chunk = []
      · simp [copy, last, calm]
      · obtain ⟨took, calm'⟩ := Hashing.write_calm calm chunk
        have more : ([] : Bytes) ∈ chunk :: rest ↔ [] ∈ rest := by simp [Ne.symm last]
        rw [copy, if_neg last, writeAll_willing took last, more]
        exact ih calm'

theorem downloadSink_calm {body : Body} (whole : body.Whole) :
    ∃ sink, copy body.broken body.reads (downloadSink []) = (.ok (), sink) ∧
      sink.inner.inner.outcomes = [] := by
  have calm : (downloadSink []).inner.inner.outcomes = [] := rfl
  obtain ⟨through, calm'⟩ := @copy_calm body.broken body.reads _ calm
  exact ⟨_, Prod.ext (through.mpr whole) rfl, calm'⟩

/-- Once the body has been copied, the flush at the drop goes through. -/
def LastFlushLands (body : Body) (outcomes : List Outcome) : Prop :=
  ∀ sink, copy body.broken body.reads (downloadSink outcomes) = (.ok (), sink) →
    sink.inner.flushBuf.1 = .ok ()

structure Arrives (sha256 : Bytes → Bytes) (file : RemoteFile) (weather : Weather)
    (body : Body) : Prop where
  response : weather.response = some body
  creates : weather.creates = true
  pinned : Server.lowerHex (sha256 body.bytes) = file.sha256
  renames : weather.renames = true

/-- What has arrived is published, as far as the dropped writer let go of it. -/
theorem fetchOne_arrives {sha256 : Bytes → Bytes} {file : RemoteFile} {weather : Weather}
    {body : Body} {sink : Hashing (BufWriter Handle)} (arrives : Arrives sha256 file weather body)
    (copied : copy body.broken body.reads (downloadSink weather.outcomes) = (.ok (), sink))
    (disk : Disk Dir) (dir : Dir) :
    fetchOne sha256 disk dir file weather = (.ok (),
      (disk.write dir ⟨partialName file.name, Write.written sink.inner.dropped⟩).move dir
        (partialName file.name) file.name) := by
  have digest : (sink.finish sha256).1 = file.sha256 := by
    rw [Hashing.finish, (downloadSink_copied copied).1, arrives.pinned]
  simp only [fetchOne, arrives.response, arrives.creates, arrives.renames, streamToFile, copied,
    if_true, digest, ne_eq, not_true_eq_false, if_false]

/-- Otherwise it is an error, and nothing but the temporary file has changed. -/
theorem fetchOne_refused {sha256 : Bytes → Bytes} {file : RemoteFile} {weather : Weather}
    (refused : ∀ body sink, Arrives sha256 file weather body →
      copy body.broken body.reads (downloadSink weather.outcomes) ≠ (.ok (), sink))
    (disk : Disk Dir) (dir : Dir) :
    ∃ error disk', fetchOne sha256 disk dir file weather = (.error error, disk') ∧
      ∀ other name, ¬ (dir = other ∧ partialName file.name = name) →
        disk'.read other name = disk.read other name := by
  have written : ∀ content other name, ¬ (dir = other ∧ partialName file.name = name) →
      (disk.write dir ⟨partialName file.name, content⟩).read other name =
        disk.read other name := fun _ _ _ apart => Disk.read_write.trans (if_neg apart)
  unfold fetchOne
  split
  · exact ⟨_, _, rfl, fun _ _ _ => rfl⟩
  · rename_i body response
    split
    · rename_i creates
      unfold streamToFile
      split
      · exact ⟨_, _, rfl, written _⟩
      · rename_i digest _ content streamed
        split at streamed
        · rename_i sink copied
          obtain ⟨same, -⟩ := Prod.mk.inj streamed
          obtain ⟨rfl, -⟩ := Prod.mk.inj (Except.ok.inj same)
          have hashed := (downloadSink_copied copied).1
          split
          · refine ⟨_, _, rfl, fun other name apart => ?_⟩
            split
            · rw [Disk.read_unlink, if_neg apart, written _ _ _ apart]
            · exact written _ _ _ apart
          · rename_i pinned
            split
            · rename_i renames
              refine absurd copied (refused body sink ⟨response, creates, ?_, renames⟩)
              rw [← hashed]
              exact Decidable.not_not.mp pinned
            · exact ⟨_, _, rfl, written _⟩
        · cases streamed
    · exact ⟨_, _, rfl, fun _ _ _ => rfl⟩

/-- What `Ok` and `Err` promise of the file's final name. -/
def PutInPlace (sha256 : Bytes → Bytes) (disk : Disk Dir) (dir : Dir) (file : RemoteFile)
    (weather : Weather) : Prop :=
  match fetchOne sha256 disk dir file weather with
  | (.ok (), disk') => ∃ content, disk'.read dir file.name = some content ∧
      Server.lowerHex (sha256 content) = file.sha256
  | (.error _, disk') => disk'.read dir file.name = disk.read dir file.name

theorem partialName_ne (name : String) : partialName name ≠ name := by
  intro same
  have lengths := congrArg (fun text => text.toList.length) same
  simp [partialName] at lengths

/-- Only verified bytes are put in place, unless the last flush of a file that is otherwise
fetched falls short. -/
theorem putInPlace_iff {sha256 : Bytes → Bytes} {disk : Disk Dir} {dir : Dir} {file : RemoteFile}
    {weather : Weather}
    (apart : ∀ body landed, weather.response = some body → landed <+: body.bytes →
      sha256 landed = sha256 body.bytes → landed = body.bytes) :
    PutInPlace sha256 disk dir file weather ↔
      ∀ body, Arrives sha256 file weather body → LastFlushLands body weather.outcomes := by
  unfold PutInPlace
  by_cases arrived : ∃ body sink, Arrives sha256 file weather body ∧
      copy body.broken body.reads (downloadSink weather.outcomes) = (.ok (), sink)
  · obtain ⟨body, sink, arrives, copied⟩ := arrived
    obtain ⟨-, accepted⟩ := downloadSink_copied copied
    have landed : ((disk.write dir ⟨partialName file.name, Write.written sink.inner.dropped⟩).move
        dir (partialName file.name) file.name).read dir file.name =
          some (Write.written sink.inner.dropped) :=
      Disk.read_move_target (by rw [Disk.read_write, if_pos ⟨rfl, rfl⟩])
    simp only [fetchOne_arrives arrives copied, landed, Option.some.injEq, exists_eq_left']
    constructor
    · intro verified other arrives' sink' copied'
      obtain rfl := Option.some.inj (arrives'.response.symm.trans arrives.response)
      obtain rfl : sink' = sink := congrArg Prod.snd (copied'.symm.trans copied)
      rw [← BufWriter.written_dropped_eq_iff, accepted]
      refine apart _ _ arrives.response ?_
        (Server.lowerHex_injective (verified.trans arrives.pinned.symm))
      exact ⟨_, (BufWriter.written_dropped sink'.inner).trans accepted⟩
    · intro lands
      have all := (BufWriter.written_dropped_eq_iff sink.inner).mpr (lands body arrives sink copied)
      rw [all, accepted, arrives.pinned]
  · obtain ⟨error, disk', failed, unchanged⟩ := fetchOne_refused
      (fun body sink arrives copied => arrived ⟨body, sink, arrives, copied⟩) disk dir
    simp only [failed]
    refine iff_of_true (unchanged dir file.name fun same => partialName_ne _ same.2) ?_
    exact fun body arrives sink copied => absurd ⟨body, sink, arrives, copied⟩ arrived

def recordedFileDigest (content : Bytes) : Bytes :=
  if content = [97, 98, 99] then
    [186, 120, 22, 191, 143, 1, 207, 234, 65, 65, 64, 222, 93, 174, 34, 35, 176, 3, 97, 163, 150,
      23, 122, 156, 180, 16, 255, 97, 242, 0, 21, 173]
  else
    [227, 176, 196, 66, 152, 252, 28, 20, 154, 251, 244, 200, 153, 111, 185, 36, 39, 174, 65,
      228, 100, 155, 147, 76, 164, 149, 153, 27, 120, 82, 184, 85]

def abc : RemoteFile where
  name := "abc"
  url := "https://github.com/nsaintot/stemd/releases/download/models-v2/abc"
  sha256 := "ba7816bf8f01cfea414140de5dae2223b00361a396177a9cb410ff61f20015ad"

def abcWeather (outcomes : List Outcome) : Weather where
  response := some ⟨[[97, 98, 99]], false⟩
  creates := true
  outcomes := outcomes
  removes := true
  renames := true

theorem abc_arrives (outcomes : List Outcome) :
    Arrives recordedFileDigest abc (abcWeather outcomes) ⟨[[97, 98, 99]], false⟩ :=
  ⟨rfl, rfl, by decide, rfl⟩

theorem recordedFileDigest_apart {outcomes : List Outcome} (body : Body) (landed : Bytes)
    (response : (abcWeather outcomes).response = some body) (_ : landed <+: body.bytes)
    (same : recordedFileDigest landed = recordedFileDigest body.bytes) : landed = body.bytes := by
  obtain rfl := Option.some.inj response
  by_cases abc : landed = [97, 98, 99]
  · exact abc
  · simp only [recordedFileDigest, if_neg abc] at same
    exact absurd same (by decide)

theorem abc_put_in_place :
    PutInPlace recordedFileDigest (Disk.empty : Disk Unit) () abc (abcWeather []) := by
  refine (putInPlace_iff recordedFileDigest_apart).mpr fun body arrives sink copied => ?_
  obtain rfl := Option.some.inj ((abc_arrives []).response.symm.trans arrives.response)
  have whole : Body.Whole ⟨[[97, 98, 99]], false⟩ := fun broken => by cases broken
  obtain ⟨sink', copied', calm⟩ := downloadSink_calm whole
  obtain rfl : sink = sink' := congrArg Prod.snd (copied.symm.trans copied')
  rw [BufWriter.flushBuf_calm calm]

/-- The disk is full by the time the last flush finds out. -/
theorem full_disk_is_published :
    ¬ ∀ (sha256 : Bytes → Bytes) (disk : Disk Unit) (dir : Unit) (file : RemoteFile)
      (weather : Weather),
      (∀ body landed, weather.response = some body → landed <+: body.bytes →
        sha256 landed = sha256 body.bytes → landed = body.bytes) →
      PutInPlace sha256 disk dir file weather := by
  intro verified
  let sink : Hashing (BufWriter Handle) :=
    ⟨⟨⟨[], [.fails]⟩, [97, 98, 99], readChunk⟩, [97, 98, 99]⟩
  have copied : copy false [[97, 98, 99]] (downloadSink [.fails]) = (.ok (), sink) := by
    rw [copy, if_neg (by decide), writeAll_willing rfl (by decide)]
    rfl
  have lost : Write.written sink.inner.dropped = [] := by
    simp [sink, BufWriter.dropped, BufWriter.flushBuf, writeAll, Write.write, Handle.write,
      Write.written]
  have placed := verified recordedFileDigest Disk.empty () abc (abcWeather [.fails])
    recordedFileDigest_apart
  rw [PutInPlace, fetchOne_arrives (abc_arrives [.fails]) copied, lost] at placed
  obtain ⟨content, found, digest⟩ := placed
  rw [Disk.read_move_target (Disk.read_write.trans (if_pos ⟨rfl, rfl⟩))] at found
  obtain rfl := Option.some.inj found
  exact absurd digest (by decide)

end Stemd.Models
