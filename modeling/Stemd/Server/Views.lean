import Stemd.Semantics.Transition
import Stemd.Server.Jobs

/-! What a poll reads of a job while others write to it.

Each field of a job has a lock of its own, taken for one read or one write. What is written
together elsewhere is written here field by field, by any number of threads, and read field by
field by any number of others. -/

set_option autoImplicit false

namespace Stemd.Server

open Stemd.Core
open Stemd.Semantics

inductive Write where
  | entry (entry : Nat)
  | result (result : JobResult)
  | error (message : String)
  | progress (progress : Progress)

/-- What is called of a job. A progress that is reported is never the last. -/
inductive Method where
  | setProgress (progress : Progress) (live : progress.stage.isTerminal = false)
  | complete (entry : Nat) (cached : Bool)
  | cancelled
  | fail (message : String)

/-- The writes that a method makes, in order. -/
def Method.writes (id : Nat) : Method → List Write
  | .setProgress progress _ => [.progress progress]
  | .complete entry cached =>
    [.entry entry, .result ⟨entry, id, cached⟩, .progress (.new .done)]
  | .cancelled => [.progress (.new .cancelled)]
  | .fail message => [.error message, .progress (.new .failed)]

structure JobView where
  id : Nat
  progress : Progress
  result : Option JobResult
  error : Option String

inductive Reading where
  | start
  | progress (progress : Progress)
  | result (progress : Progress) (result : Option JobResult)

inductive StemError where
  | notFound
  | conflict (message : String)
  | gone (message : String)
  | internal
  deriving DecidableEq

inductive Opened where
  | ready (bytes : Nat)
  | missing
  | failed

section

variable {K : Type}

def Job.write (job : Job K) : Write → Job K
  | .entry entry => { job with entry := some entry }
  | .result result => { job with result := some result }
  | .error message => { job with error := some message }
  | .progress progress => job.setProgress progress

def Job.apply (job : Job K) (id : Nat) : Method → Job K
  | .setProgress progress _ => job.setProgress progress
  | .complete entry cached => job.complete id entry cached
  | .cancelled => job.cancelled
  | .fail message => job.fail message

theorem Job.foldl_writes (job : Job K) (id : Nat) (method : Method) :
    (method.writes id).foldl Job.write job = job.apply id method := by
  cases method <;> rfl

/-- `get_stem`, by the job that it finds and the one field of it that it reads. -/
def getStem (job : Option (Job K)) (stem : Nat → Option Nat) (openFile : Nat → Opened) :
    Except StemError Nat :=
  match job with
  | none => .error .notFound
  | some job => match job.entry with
    | none => .error (.conflict "job has not finished separating")
    | some entry => match stem entry with
      | none => .error .notFound
      | some path => match openFile path with
        | .ready bytes => .ok bytes
        | .missing => .error (.gone "these stems have been reaped; resubmit the track")
        | .failed => .error .internal

inductive Polled where
  | done (entry : Nat)
  | bail (message : String)
  | working (progress : Progress)

/-- One turn of the loop in `separate`: the view, then the entry. -/
def poll (view : JobView) (entry : Option Nat) : Polled :=
  match view.progress.stage with
  | .done => match entry with
    | some entry => .done entry
    | none => .bail "the job finished with no stems attached"
  | .failed => .bail (view.error.getD "separation failed")
  | .cancelled => .bail "stopped"
  | _ => .working view.progress

structure Shared (K : Type) where
  job : Job K
  writers : List (List Write)
  readers : List Reading
  views : List JobView

inductive Turn where
  | call (method : Method)
  | write (writer : Nat)
  | look
  | read (reader : Nat)

def readOn (id : Nat) (job : Job K) : Reading → Reading ⊕ JobView
  | .start => .inl (.progress job.progress)
  | .progress progress => .inl (.result progress job.result)
  | .result progress result => .inr ⟨id, progress, result, job.error⟩

def Shared.step (id : Nat) (shared : Shared K) : Turn → Option (Shared K)
  | .call method => some { shared with writers := method.writes id :: shared.writers }
  | .write writer => match shared.writers[writer]? with
    | some (write :: rest) => some { shared with
        job := shared.job.write write
        writers := shared.writers.set writer rest }
    | _ => none
  | .look => some { shared with readers := .start :: shared.readers }
  | .read reader => match shared.readers[reader]? with
    | some reading => match readOn id shared.job reading with
      | .inl further => some { shared with readers := shared.readers.set reader further }
      | .inr view => some { shared with
          readers := shared.readers.eraseIdx reader
          views := view :: shared.views }
    | none => none

def sharedSystem (id : Nat) (key : K) (now : Nat) : System (Shared K) Turn where
  init := ⟨.fresh key now, [], [], []⟩
  step := Shared.step id

/-- A job that a stage may be read of: what a client takes from the stage is there. -/
structure Backed (job : Job K) (stage : Stage) : Prop where
  entry : stage = .done → job.entry.isSome
  result : stage = .done → job.result.isSome
  error : stage = .failed → job.error.isSome

structure Grown (job later : Job K) : Prop where
  entry : job.entry.isSome → later.entry.isSome
  result : job.result.isSome → later.result.isSome
  error : job.error.isSome → later.error.isSome

def Prepared (job : Job K) : List Write → Prop
  | [] => True
  | write :: rest =>
    (∀ progress, write = .progress progress → Backed job progress.stage) ∧
      Prepared (job.write write) rest

theorem Grown.backed {job later : Job K} (grown : Grown job later) {stage : Stage}
    (backed : Backed job stage) : Backed later stage :=
  ⟨fun done => grown.entry (backed.entry done), fun done => grown.result (backed.result done),
    fun failed => grown.error (backed.error failed)⟩

theorem grown_write (job : Job K) (write : Write) : Grown job (job.write write) := by
  cases write <;> exact ⟨fun _ => by first | rfl | assumption, fun _ => by first | rfl | assumption,
    fun _ => by first | rfl | assumption⟩

theorem Grown.write {job later : Job K} (grown : Grown job later) (write : Write) :
    Grown (job.write write) (later.write write) := by
  obtain ⟨entry, result, error⟩ := grown
  cases write <;> constructor <;> first | assumption | exact fun _ => rfl

theorem Prepared.grown {job later : Job K} {writes : List Write} (prepared : Prepared job writes)
    (grown : Grown job later) : Prepared later writes := by
  induction writes generalizing job later with
  | nil => trivial
  | cons write rest ih =>
      exact ⟨fun progress shows => grown.backed (prepared.1 progress shows),
        ih prepared.2 (grown.write write)⟩

/-- Each method writes what its last stage promises before it writes the stage. -/
theorem prepared_writes (job : Job K) (id : Nat) (method : Method) :
    Prepared job (method.writes id) := by
  cases method with
  | setProgress progress live =>
      refine ⟨?_, trivial⟩
      rintro _ ⟨⟩
      constructor <;> intro last <;> rw [last] at live <;> cases live
  -- The stage is written last: by then the entry and the result are there.
  | complete entry cached =>
      refine ⟨fun _ shows => (nomatch shows), fun _ shows => (nomatch shows), ?_, trivial⟩
      rintro _ ⟨⟩
      exact ⟨fun _ => rfl, fun _ => rfl, fun last => (nomatch last)⟩
  | cancelled =>
      refine ⟨?_, trivial⟩
      rintro _ ⟨⟩
      exact ⟨fun last => (nomatch last), fun last => (nomatch last), fun last => (nomatch last)⟩
  | fail message =>
      refine ⟨fun _ shows => (nomatch shows), ?_, trivial⟩
      rintro _ ⟨⟩
      exact ⟨fun last => (nomatch last), fun last => (nomatch last), fun _ => rfl⟩

/-- What is true of every view that is read, however it fell between the writes. -/
structure Intact (shared : Shared K) : Prop where
  stage : Backed shared.job shared.job.progress.stage
  writers : ∀ writes ∈ shared.writers, Prepared shared.job writes
  started : ∀ progress, .progress progress ∈ shared.readers → Backed shared.job progress.stage
  halfway : ∀ progress result, .result progress result ∈ shared.readers →
    Backed shared.job progress.stage ∧ (progress.stage = .done → result.isSome)
  views : ∀ view ∈ shared.views,
    (view.progress.stage = .done → view.result.isSome ∧ shared.job.entry.isSome) ∧
      (view.progress.stage = .failed → view.error.isSome)

/-- Writing keeps everything that was read or is still to be written. -/
theorem Intact.write {shared : Shared K} (intact : Intact shared) {writer : Nat} {write : Write}
    {rest : List Write} (here : shared.writers[writer]? = some (write :: rest)) :
    Intact { shared with
      job := shared.job.write write
      writers := shared.writers.set writer rest } := by
  have grown := grown_write shared.job write
  have prepared := intact.writers _ (List.mem_of_getElem? here)
  refine ⟨?_, ?_, fun progress member => grown.backed (intact.started progress member),
    fun progress result member => ?_, fun view member => ?_⟩
  · cases write with
    | progress progress => exact grown.backed (prepared.1 progress rfl)
    | entry entry => exact grown.backed intact.stage
    | result result => exact grown.backed intact.stage
    | error message => exact grown.backed intact.stage
  · intro writes member
    rcases List.mem_or_eq_of_mem_set member with member | rfl
    · exact (intact.writers writes member).grown grown
    · exact prepared.2
  · obtain ⟨backed, held⟩ := intact.halfway progress result member
    exact ⟨grown.backed backed, held⟩
  · obtain ⟨done, failed⟩ := intact.views view member
    exact ⟨fun stage => ⟨(done stage).1, grown.entry (done stage).2⟩, failed⟩

/-- Reading on takes what the job holds now, which backs a stage that was read earlier. -/
theorem Intact.read {id : Nat} {shared after : Shared K} (intact : Intact shared) {reader : Nat}
    (step : shared.step id (.read reader) = some after) : Intact after := by
  simp only [Shared.step] at step
  split at step
  · rename_i reading here
    have member := List.mem_of_getElem? here
    cases reading with
    | start =>
        cases Option.some.inj step
        refine { intact with
          started := fun progress member => ?_
          halfway := fun progress result member => ?_ }
        · rcases List.mem_or_eq_of_mem_set member with member | same
          · exact intact.started progress member
          · cases same
            exact intact.stage
        · rcases List.mem_or_eq_of_mem_set member with member | same
          · exact intact.halfway progress result member
          · cases same
    | progress read =>
        cases Option.some.inj step
        -- The result is read after the stage, and it was written before it.
        have backed := intact.started read member
        refine { intact with
          started := fun progress member => ?_
          halfway := fun progress result member => ?_ }
        · rcases List.mem_or_eq_of_mem_set member with member | same
          · exact intact.started progress member
          · cases same
        · rcases List.mem_or_eq_of_mem_set member with member | same
          · exact intact.halfway progress result member
          · cases same
            exact ⟨backed, backed.result⟩
    | result read held =>
        cases Option.some.inj step
        obtain ⟨backed, result⟩ := intact.halfway read held member
        refine { intact with
          started := fun progress member =>
            intact.started progress (List.mem_of_mem_eraseIdx member)
          halfway := fun progress result member =>
            intact.halfway progress result (List.mem_of_mem_eraseIdx member)
          views := fun view member => ?_ }
        rcases List.mem_cons.mp member with rfl | member
        -- A stage that was done when it was read has everything by now.
        · exact ⟨fun done => ⟨result done, backed.entry done⟩, backed.error⟩
        · exact intact.views view member
  · cases step

theorem intact {id : Nat} {key : K} {now : Nat} {shared : Shared K}
    (run : (sharedSystem id key now).Reachable shared) : Intact shared := by
  refine run.invariant ?_ fun before turn after _ intact _ step => ?_
  · refine ⟨⟨fun last => (nomatch last), fun last => (nomatch last), fun last => (nomatch last)⟩,
      ?_, ?_, ?_, ?_⟩ <;> intros <;> contradiction
  · cases turn with
    | call method =>
        cases Option.some.inj step
        refine { intact with writers := fun writes member => ?_ }
        rcases List.mem_cons.mp member with rfl | member
        · exact prepared_writes before.job id method
        · exact intact.writers writes member
    | write writer =>
        simp only [sharedSystem, Shared.step] at step
        split at step
        · rename_i write rest here
          cases Option.some.inj step
          exact intact.write here
        · cases step
    | look =>
        cases Option.some.inj step
        refine { intact with
          started := fun progress member => ?_
          halfway := fun progress result member => ?_ }
        · exact intact.started progress ((List.mem_cons.mp member).resolve_left nofun)
        · exact intact.halfway progress result ((List.mem_cons.mp member).resolve_left nofun)
    | read reader => exact intact.read step

theorem Shared.step_grown {id : Nat} {shared after : Shared K} {turn : Turn}
    (step : shared.step id turn = some after) : Grown shared.job after.job := by
  have same : Grown shared.job shared.job := ⟨fun held => held, fun held => held, fun held => held⟩
  cases turn with
  | call method =>
      cases Option.some.inj step
      exact same
  | write writer =>
      simp only [Shared.step] at step
      split at step
      · cases Option.some.inj step
        exact grown_write shared.job _
      · cases step
  | look =>
      cases Option.some.inj step
      exact same
  | read reader =>
      simp only [Shared.step] at step
      split at step
      · split at step <;>
        · cases Option.some.inj step
          exact same
      · cases step

theorem entry_stays {id : Nat} {key : K} {now : Nat} {shared later : Shared K}
    (run : (sharedSystem id key now).Reaches System.Any shared later)
    (held : shared.job.entry.isSome) : later.job.entry.isSome :=
  run.invariant (P := fun t => t.job.entry.isSome) held
    fun _ _ _ _ held _ step => (Shared.step_grown step).entry held

theorem getStem_of_entry {job : Job K} (held : job.entry.isSome) (stem : Nat → Option Nat)
    (openFile : Nat → Opened) (message : String) :
    getStem (some job) stem openFile ≠ .error (.conflict message) := by
  obtain ⟨entry, found⟩ := Option.isSome_iff_exists.mp held
  simp only [getStem, found]
  split
  · exact nofun
  · split <;> exact nofun

/-- A view that shows a job done has its result, and a stem asked for from then on is not refused
as not ready, nor does a drop find nothing to write; one that shows it failed says why. -/
theorem polls_are_whole {id : Nat} {key : K} {now : Nat} {shared : Shared K}
    (run : (sharedSystem id key now).Reachable shared) {view : JobView}
    (seen : view ∈ shared.views) :
    (view.progress.stage = .done → view.result.isSome ∧
      ∀ later, (sharedSystem id key now).Reaches System.Any shared later →
        later.job.entry.isSome ∧ (∃ entry, poll view later.job.entry = .done entry) ∧
        ∀ stem openFile message,
          getStem (some later.job) stem openFile ≠ .error (.conflict message)) ∧
    (view.progress.stage = .failed →
      ∃ message, view.error = some message ∧ ∀ entry, poll view entry = .bail message) := by
  obtain ⟨done, failed⟩ := (intact run).views view seen
  constructor
  · intro stage
    obtain ⟨result, entry⟩ := done stage
    refine ⟨result, fun later rest => ?_⟩
    have held := entry_stays rest entry
    obtain ⟨attached, found⟩ := Option.isSome_iff_exists.mp held
    refine ⟨held, ⟨attached, ?_⟩, getStem_of_entry held⟩
    simp only [poll, stage, found]
  · intro stage
    obtain ⟨message, found⟩ := Option.isSome_iff_exists.mp (failed stage)
    refine ⟨message, found, fun entry => ?_⟩
    simp only [poll, stage, found, Option.getD_some]

end

/-- One view is read between the writes of a completion, and has the result before the stage; the
other is begun between them, and has both. -/
theorem overtaken_views_are_whole :
    ∃ shared : Shared Unit, (sharedSystem 1 () 0).Reachable shared ∧
      (∃ view ∈ shared.views, view.progress.stage = .queued ∧ view.result.isSome) ∧
      ∃ view ∈ shared.views, view.progress.stage = .done ∧ view.result.isSome := by
  obtain ⟨shared, run, early, view, seen, stage⟩ : ∃ shared : Shared Unit,
      (sharedSystem 1 () 0).Reachable shared ∧
        (∃ view ∈ shared.views, view.progress.stage = .queued ∧ view.result.isSome = true) ∧
        ∃ view ∈ shared.views, view.progress.stage = .done := by
    refine System.exists_of_replay [.look, .call (.complete 3 false), .write 0, .read 0, .write 0,
      .read 0, .look, .write 0, .read 1, .read 0, .read 0, .read 0] ?_
    decide
  exact ⟨shared, run, early, view, seen, stage, ((polls_are_whole run seen).1 stage).1⟩

end Stemd.Server
