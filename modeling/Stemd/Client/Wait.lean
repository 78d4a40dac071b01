import Mathlib.Data.List.Destutter
import Std.Data.String.ToNat
import Stemd.Semantics.Fallible
import Stemd.Semantics.Framing
import Stemd.Queue.Inner
import Stemd.Server.Views

/-! How the command-line client waits for its job.

The client knows a stage by its name alone, and goes on polling at every name that it takes for an
unfinished job. What it is told between its polls is the server's: a job that several threads write
to, a field at a time, and a view that is read of it a field at a time. -/

set_option autoImplicit false

namespace Stemd.Client

open Stemd.Core hiding Progress
open Stemd.Semantics
open Stemd.Server (Job Method Write Reading Shared Turn sharedSystem intact getStem)

structure Progress where
  stage : String
  completed : UInt64
  total : UInt64
  fraction : ℚ

structure JobView (R : Type) where
  progress : Progress
  result : Option R
  error : Option String

inductive WaitError (E : Type) where
  /-- A poll that is not answered, or not with a view. -/
  | get (error : E)
  /-- `server reported done with no result attached` -/
  | noResult
  /-- `server reported failure: {message}` -/
  | reported (message : String)
  /-- `the job was cancelled` -/
  | cancelled

def describe (progress : Progress) : String :=
  if progress.total = 0 then progress.stage
  else s!"{progress.stage} {progress.completed}/{progress.total}"

section

variable {E R : Type}

def ending (job : JobView R) : Option (Except (WaitError E) R) :=
  match job.progress.stage with
  | "done" => some (parsed job.result .noResult)
  | "failed" => some (.error (.reported (job.error.getD "unknown")))
  | "cancelled" => some (.error .cancelled)
  | _ => none

def line (job : JobView R) : String × ℚ := (describe job.progress, job.progress.fraction)

/-- Poll until the job reaches a terminal stage, by the answers there are: what is reported on the
way, and what the wait comes to if it does not outlast them. -/
def wait (last : String) : List (Except E (JobView R)) →
    List (String × ℚ) × Option (Except (WaitError E) R)
  | [] => ([], none)
  | .error error :: _ => ([], some (.error (.get error)))
  | .ok job :: rest =>
    let told := if describe job.progress ≠ last then [line job] else []
    match ending job with
    | some outcome => (told, some outcome)
    | none =>
      let later := wait (describe job.progress) rest
      (told ++ later.1, later.2)

def heard : List (Except E (JobView R)) → List (JobView R)
  | .ok job :: rest => match (ending job : Option (Except (WaitError E) R)) with
    | some _ => [job]
    | none => job :: heard rest
  | _ => []

end

def stageName : Stage → String
  | .queued => "queued"
  | .analysing => "analysing"
  | .separating => "separating"
  | .reconstructing => "reconstructing"
  | .writing => "writing"
  | .done => "done"
  | .failed => "failed"
  | .cancelled => "cancelled"

/-- `live_view`, for a job at such a place among so many in the queue, if it is in it. -/
def liveView (place : Option (Nat × Nat)) (view : Server.JobView) : Server.JobView :=
  match view.progress.stage, place with
  | .queued, some (position, total) =>
    { view with progress := Queue.queuedProgress position total }
  | _, _ => view

def sent (view : Server.JobView) : JobView Server.JobResult where
  progress := {
    stage := stageName view.progress.stage
    completed := view.progress.completed.toUInt64
    total := view.progress.total.toUInt64
    fraction := view.progress.fraction }
  result := view.result
  error := view.error

/-- What the client gets for a poll that found the job as it is seen here, and there in the
queue. -/
def answer {E : Type} (poll : Except E (Option (Nat × Nat) × Server.JobView)) :
    Except E (JobView Server.JobResult) :=
  poll.map fun found => sent (liveView found.1 found.2)

@[simp] theorem liveView_stage (place : Option (Nat × Nat)) (view : Server.JobView) :
    (liveView place view).progress.stage = view.progress.stage := by
  unfold liveView
  split
  · rename_i queued
    exact queued.symm
  · rfl

@[simp] theorem liveView_result (place : Option (Nat × Nat)) (view : Server.JobView) :
    (liveView place view).result = view.result := by
  unfold liveView
  split <;> rfl

@[simp] theorem liveView_error (place : Option (Nat × Nat)) (view : Server.JobView) :
    (liveView place view).error = view.error := by
  unfold liveView
  split <;> rfl

theorem ending_sent {E : Type} (view : Server.JobView) :
    (ending (sent view) : Option (Except (WaitError E) Server.JobResult)) =
      match view.progress.stage with
      | .done => some (parsed view.result .noResult)
      | .failed => some (.error (.reported (view.error.getD "unknown")))
      | .cancelled => some (.error .cancelled)
      | _ => none := by
  obtain ⟨id, ⟨stage, completed, total, fraction, detail⟩, result, error⟩ := view
  cases stage <;> rfl

def shows (progress : Progress) : String × Option (UInt64 × UInt64) :=
  (progress.stage, if progress.total = 0 then none else some (progress.completed, progress.total))

theorem noMark_repr (n : Nat) {c : Char} (mark : c.isDigit = false) : c ∉ (Nat.repr n).toList := by
  intro member
  rw [Nat.repr_eq_ofList_toDigits, String.toList_ofList] at member
  have digit := Nat.isDigit_of_mem_toDigits (by decide) (by decide) member
  rw [mark] at digit
  cases digit

theorem describe_toList {progress : Progress} (counted : progress.total ≠ 0) :
    (describe progress).toList = (progress.stage.toList ++ ' ' ::
      (Nat.repr progress.completed.toNat).toList) ++ '/' ::
      (Nat.repr progress.total.toNat).toList := by
  unfold describe
  rw [if_neg counted]
  simp [toString]

theorem describe_ne {one other : Progress} (plain : '/' ∉ one.stage.toList)
    (bare : one.total = 0) (counted : other.total ≠ 0) : describe one ≠ describe other := by
  intro same
  have text : describe one = one.stage := if_pos bare
  have stroke : '/' ∈ (describe other).toList := by
    rw [describe_toList counted]
    exact List.mem_append_right _ List.mem_cons_self
  rw [← same, text] at stroke
  exact plain stroke

theorem describe_inj {one other : Progress} (plain : '/' ∉ one.stage.toList)
    (plain' : '/' ∉ other.stage.toList) :
    describe one = describe other ↔ shows one = shows other := by
  by_cases bare : one.total = 0 <;> by_cases bare' : other.total = 0
  · simp only [describe, shows, if_pos bare, if_pos bare', Prod.mk.injEq, and_true]
  · refine ⟨fun same => absurd same (describe_ne plain bare bare'), fun same => ?_⟩
    simp only [shows, if_pos bare, if_neg bare'] at same
    cases (Prod.mk.inj same).2
  · refine ⟨fun same => absurd same.symm (describe_ne plain' bare' bare), fun same => ?_⟩
    simp only [shows, if_neg bare, if_pos bare'] at same
    cases (Prod.mk.inj same).2
  · simp only [shows, if_neg bare, if_neg bare', Prod.mk.injEq, Option.some.injEq]
    constructor
    · intro same
      have texts := congrArg String.toList same
      rw [describe_toList bare, describe_toList bare'] at texts
      have total (p : Progress) : '/' ∉ (Nat.repr p.total.toNat).toList :=
        noMark_repr _ (by decide)
      have completed (p : Progress) : ' ' ∉ (Nat.repr p.completed.toNat).toList :=
        noMark_repr _ (by decide)
      -- Each count holds digits alone, and so the last mark is the one in front of it.
      obtain ⟨fronts, totals⟩ := Framing.split_at_last (total one) (total other) texts
      obtain ⟨stages, counts⟩ := Framing.split_at_last (completed one) (completed other) fronts
      exact ⟨String.toList_injective stages,
        UInt64.toNat_inj.mp (Nat.repr_injective (String.toList_injective counts)),
        UInt64.toNat_inj.mp (Nat.repr_injective (String.toList_injective totals))⟩
    · rintro ⟨stages, counts, totals⟩
      simp only [describe, if_neg bare', stages, counts, totals]

def Changes {R : Type} (before after : JobView R) : Prop :=
  shows before.progress ≠ shows after.progress

instance {R : Type} : DecidableRel (Changes (R := R)) :=
  fun _ _ => inferInstanceAs (Decidable (¬ _))

section

variable {E R : Type}

theorem wait_cons (last : String) (job : JobView R) (rest : List (Except E (JobView R))) :
    (wait last (.ok job :: rest)).1 =
      (if describe job.progress ≠ last then [line job] else []) ++
        if (ending job : Option (Except (WaitError E) R)).isSome then []
        else (wait (describe job.progress) rest).1 := by
  rw [wait]
  cases (ending job : Option (Except (WaitError E) R)) with
  | none => rfl
  | some outcome => exact (List.append_nil _).symm

theorem heard_cons (job : JobView R) (rest : List (Except E (JobView R))) :
    heard (.ok job :: rest) =
      job :: if (ending job : Option (Except (WaitError E) R)).isSome then [] else heard rest := by
  rw [heard]
  cases (ending job : Option (Except (WaitError E) R)) <;> rfl

/-- After a view that was reported, what is reported is what shows something else than the last. -/
theorem wait_tells {answers : List (Except E (JobView R))} {before : JobView R}
    (plain : '/' ∉ before.progress.stage.toList)
    (plains : ∀ job ∈ heard answers, '/' ∉ job.progress.stage.toList) :
    line before :: (wait (describe before.progress) answers).1 =
      ((heard answers).destutter' Changes before).map line := by
  induction answers generalizing before with
  | nil => rfl
  | cons first rest ih =>
      cases first with
      | error error => rfl
      | ok job =>
          rw [heard_cons] at plains ⊢
          have here := plains job List.mem_cons_self
          have inj := describe_inj here plain
          rw [wait_cons]
          by_cases same : describe job.progress = describe before.progress
          · have still : ¬ Changes before job := not_not.mpr (inj.mp same).symm
            rw [if_neg (not_not.mpr same), List.nil_append, List.destutter'_cons_neg _ still, same]
            split
            · rfl
            · rename_i goes
              rw [if_neg goes] at plains
              exact ih plain fun other member => plains other (List.mem_cons_of_mem _ member)
          · have changed : Changes before job := fun shown => same (inj.mpr shown.symm)
            rw [if_pos same, List.destutter'_cons_pos _ changed, List.map_cons,
              List.singleton_append]
            congr 1
            split
            · rfl
            · rename_i goes
              rw [if_neg goes] at plains
              exact ih here fun other member => plains other (List.mem_cons_of_mem _ member)

end

theorem plain_stageName (stage : Stage) : '/' ∉ (stageName stage).toList := by
  cases stage <;> decide

theorem describe_sent_ne (view : Server.JobView) : describe (sent view).progress ≠ "" := by
  intro none
  by_cases bare : (sent view).progress.total = 0
  · rw [describe, if_pos bare] at none
    have named (stage : Stage) : stageName stage ≠ "" := by cases stage <;> decide
    exact named _ none
  · have texts := congrArg String.toList none
    rw [describe_toList bare] at texts
    simp at texts

theorem plain_heard {E : Type} {p : List (Except E (Option (Nat × Nat) × Server.JobView))} :
    ∀ job ∈ heard (p.map answer), '/' ∉ job.progress.stage.toList := by
  induction p with
  | nil => exact fun _ member => nomatch member
  | cons first rest ih =>
      cases first with
      | error error => exact fun _ member => nomatch member
      | ok found =>
          intro job member
          rw [List.map_cons, answer, Except.map, heard_cons] at member
          rcases List.mem_cons.mp member with rfl | later
          · exact plain_stageName _
          · split at later
            · cases later
            · exact ih job later

/-- Of the views that a client is answered with it reports the first, and each that shows another
stage or another count than the one reported before it. -/
theorem wait_reports {E : Type} (polls : List (Except E (Option (Nat × Nat) × Server.JobView))) :
    (wait "" (polls.map answer)).1 =
      ((heard (polls.map answer)).destutter Changes).map line := by
  cases polls with
  | nil => rfl
  | cons first rest =>
      cases first with
      | error error => rfl
      | ok found =>
          have all := plain_heard (E := E) (p := .ok found :: rest)
          rw [List.map_cons, answer, Except.map, heard_cons] at all ⊢
          rw [wait_cons, if_pos (describe_sent_ne _), List.destutter_cons', List.singleton_append]
          split
          · rfl
          · rename_i goes
            rw [if_neg goes] at all
            exact wait_tells (all _ List.mem_cons_self)
              fun job member => all job (List.mem_cons_of_mem _ member)

section

variable {K : Type} {id : Nat} {allowed : Method → Prop}

def Calls (allowed : Method → Prop) (_ : Shared K) : Turn → Prop
  | .call method => allowed method
  | _ => True

def Vouched (id : Nat) (allowed : Method → Prop) (write : Write) : Prop :=
  ∃ method, allowed method ∧ write ∈ method.writes id

def Shown (id : Nat) (allowed : Method → Prop) (progress : Core.Progress) : Prop :=
  progress = .new .queued ∨ Vouched id allowed (.progress progress)

structure Sourced (id : Nat) (allowed : Method → Prop) (shared : Shared K) : Prop where
  progress : Shown id allowed shared.job.progress
  result : ∀ result, shared.job.result = some result → Vouched id allowed (.result result)
  error : ∀ message, shared.job.error = some message → Vouched id allowed (.error message)
  writers : ∀ writes ∈ shared.writers, ∀ write ∈ writes, Vouched id allowed write
  started : ∀ progress, .progress progress ∈ shared.readers → Shown id allowed progress
  halfway : ∀ progress read, .result progress read ∈ shared.readers →
    Shown id allowed progress ∧
      ∀ result, read = some result → Vouched id allowed (.result result)
  views : ∀ view ∈ shared.views, Shown id allowed view.progress ∧
    (∀ result, view.result = some result → Vouched id allowed (.result result)) ∧
    ∀ message, view.error = some message → Vouched id allowed (.error message)

theorem Sourced.write {shared : Shared K} (sourced : Sourced id allowed shared) {writer : Nat}
    {write : Write} {rest : List Write} (here : shared.writers[writer]? = some (write :: rest)) :
    Sourced id allowed { shared with
      job := shared.job.write write
      writers := shared.writers.set writer rest } := by
  have mine := sourced.writers _ (List.mem_of_getElem? here)
  have vouched := mine write List.mem_cons_self
  have writers : ∀ writes ∈ shared.writers.set writer rest, ∀ w ∈ writes, Vouched id allowed w := by
    intro writes member
    rcases List.mem_or_eq_of_mem_set member with member | rfl
    · exact sourced.writers writes member
    · exact fun w later => mine w (List.mem_cons_of_mem _ later)
  cases write with
  | progress progress => exact { sourced with progress := .inr vouched, writers := writers }
  | entry entry => exact { sourced with writers := writers }
  | result result =>
      refine { sourced with result := ?_, writers := writers }
      rintro _ ⟨⟩
      exact vouched
  | error message =>
      refine { sourced with error := ?_, writers := writers }
      rintro _ ⟨⟩
      exact vouched

theorem Sourced.read {shared after : Shared K} (sourced : Sourced id allowed shared) {reader : Nat}
    (step : shared.step id (.read reader) = some after) : Sourced id allowed after := by
  simp only [Shared.step] at step
  split at step
  · rename_i reading here
    have member := List.mem_of_getElem? here
    cases reading with
    | start =>
        cases Option.some.inj step
        refine { sourced with
          started := fun progress member => ?_
          halfway := fun progress read member => ?_ }
        · rcases List.mem_or_eq_of_mem_set member with member | same
          · exact sourced.started progress member
          · cases same
            exact sourced.progress
        · rcases List.mem_or_eq_of_mem_set member with member | same
          · exact sourced.halfway progress read member
          · cases same
    | progress seen =>
        cases Option.some.inj step
        have shown := sourced.started seen member
        refine { sourced with
          started := fun progress member => ?_
          halfway := fun progress read member => ?_ }
        · rcases List.mem_or_eq_of_mem_set member with member | same
          · exact sourced.started progress member
          · cases same
        · rcases List.mem_or_eq_of_mem_set member with member | same
          · exact sourced.halfway progress read member
          · cases same
            exact ⟨shown, sourced.result⟩
    | result seen held =>
        cases Option.some.inj step
        obtain ⟨shown, vouched⟩ := sourced.halfway seen held member
        refine { sourced with
          started := fun progress member =>
            sourced.started progress (List.mem_of_mem_eraseIdx member)
          halfway := fun progress read member =>
            sourced.halfway progress read (List.mem_of_mem_eraseIdx member)
          views := fun view member => ?_ }
        rcases List.mem_cons.mp member with rfl | member
        · exact ⟨shown, vouched, sourced.error⟩
        · exact sourced.views view member
  · cases step

/-- Nothing is ever read of a job but what the calls that were made of it write. -/
theorem sourced {key : K} {now : Nat} {shared : Shared K}
    (run : (sharedSystem id key now).Reaches (Calls allowed)
      (sharedSystem id key now).init shared) : Sourced id allowed shared := by
  refine run.invariant ?_ fun before turn after _ sourced called step => ?_
  · refine ⟨.inl rfl, ?_, ?_, ?_, ?_, ?_, ?_⟩
    · exact fun _ held => by cases held
    · exact fun _ held => by cases held
    · exact fun _ member => by cases member
    · exact fun _ member => by cases member
    · exact fun _ _ member => by cases member
    · exact fun _ member => by cases member
  · cases turn with
    | call method =>
        cases Option.some.inj step
        refine { sourced with writers := fun writes member => ?_ }
        rcases List.mem_cons.mp member with rfl | member
        · exact fun write mine => ⟨method, called, mine⟩
        · exact sourced.writers writes member
    | write writer =>
        simp only [sharedSystem, Shared.step] at step
        split at step
        · rename_i write rest here
          cases Option.some.inj step
          exact sourced.write here
        · cases step
    | look =>
        cases Option.some.inj step
        refine { sourced with
          started := fun progress member => ?_
          halfway := fun progress read member => ?_ }
        · rcases List.mem_cons.mp member with same | member
          · cases same
          · exact sourced.started progress member
        · rcases List.mem_cons.mp member with same | member
          · cases same
          · exact sourced.halfway progress read member
    | read reader => exact sourced.read step

theorem vouched_result {result : Server.JobResult} (vouched : Vouched id allowed (.result result)) :
    ∃ entry cached, allowed (.complete entry cached) ∧ result = ⟨entry, id, cached⟩ := by
  obtain ⟨method, called, mine⟩ := vouched
  cases method with
  | complete entry cached =>
      simp only [Method.writes, List.mem_cons, reduceCtorEq, Write.result.injEq, false_or,
        List.not_mem_nil, or_false] at mine
      exact ⟨entry, cached, called, mine⟩
  | _ => simp [Method.writes] at mine

theorem vouched_error {message : String} (vouched : Vouched id allowed (.error message)) :
    allowed (.fail message) := by
  obtain ⟨method, called, mine⟩ := vouched
  cases method with
  | fail text =>
      simp only [Method.writes, List.mem_cons, Write.error.injEq, reduceCtorEq, or_false,
        List.not_mem_nil] at mine
      exact mine ▸ called
  | _ => simp [Method.writes] at mine

theorem shown_cancelled {progress : Core.Progress} (shown : Shown id allowed progress)
    (last : progress.stage = .cancelled) : allowed .cancelled := by
  rcases shown with rfl | ⟨method, called, mine⟩
  · cases last
  · cases method with
    | cancelled => exact called
    | setProgress reported live =>
        simp only [Method.writes, List.mem_singleton, Write.progress.injEq] at mine
        rw [← mine, last] at live
        cases live
    | complete entry cached =>
        simp only [Method.writes, List.mem_cons, reduceCtorEq, Write.progress.injEq, false_or,
          List.not_mem_nil, or_false] at mine
        rw [mine] at last
        cases last
    | fail message =>
        simp only [Method.writes, List.mem_cons, reduceCtorEq, Write.progress.injEq, false_or,
          List.not_mem_nil, or_false] at mine
        rw [mine] at last
        cases last

def ends {E R : Type} : Except E (JobView R) → Option (Except (WaitError E) R)
  | .error error => some (.error (.get error))
  | .ok job => ending job

/-- The first answer that ends the wait decides it. -/
theorem wait_outcome {E R : Type} (last : String) (answers : List (Except E (JobView R))) :
    (wait last answers).2 = answers.findSome? ends := by
  induction answers generalizing last with
  | nil => rfl
  | cons first rest ih =>
      cases first with
      | error error => rfl
      | ok job =>
          rw [wait, List.findSome?_cons, ends]
          cases (ending job : Option (Except (WaitError E) R)) with
          | some outcome => rfl
          | none => exact ih _

/-- What a wait may come to: nothing but what was done to the job, or to a poll. -/
inductive Warranted {E : Type} (id : Nat) (allowed : Method → Prop)
    (polls : List (Except E (Option (Nat × Nat) × Server.JobView))) :
    Except (WaitError E) Server.JobResult → Prop where
  | lost (error : E) (member : .error error ∈ polls) :
      Warranted id allowed polls (.error (.get error))
  | cancelled (called : allowed .cancelled) : Warranted id allowed polls (.error .cancelled)
  | failed (message : String) (called : allowed (.fail message)) :
      Warranted id allowed polls (.error (.reported message))
  | done (entry : Nat) (cached : Bool) (called : allowed (.complete entry cached)) :
      Warranted id allowed polls (.ok ⟨entry, id, cached⟩)

section

variable {E : Type} {key : K} {now : Nat} {shared : Shared K}
  {polls : List (Except E (Option (Nat × Nat) × Server.JobView))}

theorem ends_answer (place : Option (Nat × Nat)) (view : Server.JobView) :
    (ends (answer (.ok (place, view))) : Option (Except (WaitError E) Server.JobResult)) =
      match view.progress.stage with
      | .done => some (parsed view.result .noResult)
      | .failed => some (.error (.reported (view.error.getD "unknown")))
      | .cancelled => some (.error .cancelled)
      | _ => none := by
  have same := ending_sent (E := E) (liveView place view)
  rwa [liveView_stage, liveView_result, liveView_error] at same

theorem ends_none_iff (place : Option (Nat × Nat)) (view : Server.JobView) :
    (ends (answer (.ok (place, view))) : Option (Except (WaitError E) Server.JobResult)) = none ↔
      view.progress.stage.isTerminal = false := by
  rw [ends_answer]
  cases view.progress.stage <;> simp [Stage.isTerminal]

theorem ended_warranted
    (run : (sharedSystem id key now).Reaches (Calls allowed) (sharedSystem id key now).init shared)
    {place : Option (Nat × Nat)} {view : Server.JobView} (seen : view ∈ shared.views)
    {outcome : Except (WaitError E) Server.JobResult}
    (ended : ends (answer (.ok (place, view))) = some outcome) :
    Warranted id allowed polls outcome ∧
      ((∃ result, outcome = .ok result) → shared.job.entry.isSome) := by
  obtain ⟨shown, results, errors⟩ := (sourced run).views view seen
  obtain ⟨done, failed⟩ := (intact run.any).views view seen
  rw [ends_answer] at ended
  split at ended
  · rename_i stage
    obtain ⟨there, entry⟩ := done stage
    obtain ⟨result, held⟩ := Option.isSome_iff_exists.mp there
    obtain ⟨stored, cached, called, rfl⟩ := vouched_result (results result held)
    rw [held] at ended
    cases ended
    exact ⟨.done stored cached called, fun _ => entry⟩
  · rename_i stage
    obtain ⟨message, held⟩ := Option.isSome_iff_exists.mp (failed stage)
    rw [held] at ended
    cases ended
    exact ⟨.failed message (vouched_error (errors message held)), fun ⟨_, same⟩ => nomatch same⟩
  · rename_i stage
    cases ended
    exact ⟨.cancelled (shown_cancelled shown stage), fun ⟨_, same⟩ => nomatch same⟩
  · cases ended

/-- A client that waits for a job, among whatever threads write to it and read of it, goes on
exactly as long as the server is not through with the job, and then comes to what was called of the
job: it is never told that a job is done without its result, nor that one failed without its
reason, and what it goes on to download is not refused as unfinished. -/
theorem wait_is_warranted
    (run : (sharedSystem id key now).Reaches (Calls allowed) (sharedSystem id key now).init shared)
    (seen : ∀ place view, .ok (place, view) ∈ polls → view ∈ shared.views) :
    ((wait "" (polls.map answer)).2 = none ↔ ∀ poll ∈ polls, ∃ place view,
      poll = .ok (place, view) ∧ view.progress.stage.isTerminal = false) ∧
    ∀ outcome, (wait "" (polls.map answer)).2 = some outcome →
      Warranted id allowed polls outcome ∧ ((∃ result, outcome = .ok result) →
        ∀ later, (sharedSystem id key now).Reaches System.Any shared later →
          ∀ stem openFile message,
            getStem (some later.job) stem openFile ≠ .error (.conflict message)) := by
  rw [wait_outcome, List.findSome?_eq_none_iff, List.forall_mem_map]
  constructor
  · refine forall₂_congr fun poll _ => ?_
    cases poll with
    | error error => exact ⟨(fun none => nomatch none), fun ⟨_, _, same, _⟩ => nomatch same⟩
    | ok found =>
        obtain ⟨place, view⟩ := found
        rw [ends_none_iff]
        constructor
        · exact fun live => ⟨place, view, rfl, live⟩
        · rintro ⟨_, _, ⟨⟩, live⟩
          exact live
  · intro outcome ended
    obtain ⟨reply, member, ended⟩ := List.exists_of_findSome?_eq_some ended
    obtain ⟨poll, asked, rfl⟩ := List.mem_map.mp member
    cases poll with
    | error error =>
        cases ended
        exact ⟨.lost error asked, fun ⟨_, same⟩ => nomatch same⟩
    | ok found =>
        obtain ⟨warranted, entry⟩ := ended_warranted run (seen found.1 found.2 asked) ended
        exact ⟨warranted, fun got later rest =>
          Server.getStem_of_entry (Server.entry_stays rest (entry got))⟩

end

end

def Starved : Method → Prop
  | .fail message => message = "out of memory"
  | _ => False

instance (shared : Shared Unit) (turn : Turn) : Decidable (Calls Starved shared turn) :=
  match turn with
  | .call (.fail message) => inferInstanceAs (Decidable (message = "out of memory"))
  | .call (.setProgress _ _) | .call (.complete _ _) | .call .cancelled => .isFalse id
  | .write _ | .look | .read _ => .isTrue trivial

def twoPolls (before after : Server.JobView) :
    List (Except Unit (Option (Nat × Nat) × Server.JobView)) :=
  [.ok (some (0, 1), before), .ok (none, after)]

/-- The poll before the failure goes on, and the one after it ends the wait with the reason. -/
theorem starved_wait_is_warranted :
    ∃ before after : Server.JobView,
      (wait "" ((twoPolls before after).map answer)).2 =
        some (.error (.reported "out of memory")) ∧
      Warranted 1 Starved (twoPolls before after) (.error (.reported "out of memory")) := by
  obtain ⟨shared, run, read⟩ : ∃ shared : Shared Unit,
      (sharedSystem 1 () 0).Reaches (Calls Starved) (sharedSystem 1 () 0).init shared ∧
        (shared.views.map fun view => (view.progress.stage, view.error)) =
          [(.failed, some "out of memory"), (.queued, none)] := by
    refine System.exists_of_replay [.look, .read 0, .read 0, .read 0,
      .call (.fail "out of memory"), .write 0, .write 0, .look, .read 0, .read 0, .read 0] ?_
    decide
  obtain ⟨after, rest, views, failed, read⟩ := List.map_eq_cons_iff.mp read
  obtain ⟨before, rest, rfl, queued, -⟩ := List.map_eq_cons_iff.mp read
  obtain ⟨failed, reason⟩ := Prod.mk.inj failed
  have told : (wait "" ((twoPolls before after).map answer)).2 =
      some (.error (.reported "out of memory")) := by
    rw [wait_outcome, twoPolls, List.map_cons, List.findSome?_cons, ends_answer,
      (Prod.mk.inj queued).1, List.map_cons, List.findSome?_cons, ends_answer, failed, reason]
    rfl
  refine ⟨before, after, told, ((wait_is_warranted run ?_).2 _ told).1⟩
  intro place view member
  rw [views]
  rcases List.mem_pair.mp member with same | same <;> cases same
  · exact List.mem_cons_of_mem _ List.mem_cons_self
  · exact List.mem_cons_self

end Stemd.Client
