import Stemd.Queue.Order

/-! The queue with the calls its callers make.

A call holds one lock at a time and lets go in between, so it is a sequence of points
at which any other call, and the worker, may come first. -/

set_option autoImplicit false

namespace Stemd.Queue

open Stemd.Core
open Stemd.Semantics

/-- Where a call stands. Each constructor is about to do what it is named after. -/
inductive Call (Id Sep : Type) where
  | cancelPending (id : Id)
  | cancelRunning (id : Id)
  | cancelReturned (id : Id) (found : Bool)
  | stage (build : Sep)
  | supersede (channel : Nat) (superseded : Option (Staged Sep))
  | installNotify (channel : Nat)
  | receive (channel : Nat)
  | installReturned (result : Reply Sep)
  | shut
  | letGo
  | flagRunning
  | stopNotify
  | takeHandle
  | polling
  | stopReturned (out : Bool)
  deriving DecidableEq

inductive Method (Id Sep : Type) where
  | cancel (id : Id)
  | install (build : Sep)
  | stop

def Method.enter {Id Sep : Type} : Method Id Sep → Call Id Sep
  | .cancel id => .cancelPending id
  | .install build => .stage build
  | .stop => .shut

variable {Id Mix Sep : Type} [DecidableEq Id]

/-- The next thing a call does. `late` is whether the grace period has run out where a
stop looks at it; a call that has to wait has no step. -/
def Call.advance (late : Bool) (inner : Inner Id Mix Sep) :
    Call Id Sep → Option (Inner Id Mix Sep × Call Id Sep)
  | .cancelPending id =>
      let (found, after) := inner.cancelPending id
      some (after, if found then .cancelReturned id true else .cancelRunning id)
  -- `pending` has been let go: a job taken in between is found here, one finished is not.
  | .cancelRunning id =>
      let (found, after) := inner.cancelRunning id
      some (after, .cancelReturned id found)
  | .cancelReturned _ _ => none
  | .stage build => match inner.stage build with
      | some (channel, superseded, after) => some (after, .supersede channel superseded)
      | none => some (inner, .installReturned .shuttingDown)
  | .supersede channel superseded => match superseded with
      | some staged => some (inner.send staged.reply .superseded, .installNotify channel)
      | none => some (inner, .installNotify channel)
  | .installNotify channel => some (inner.notify, .receive channel)
  | .receive channel => match inner.channels[channel]? with
      | some (some reply) => some (inner, .installReturned reply)
      | _ => none
  | .installReturned _ => none
  | .shut => some (inner.shut, .letGo)
  | .letGo => some (inner.letGo, .flagRunning)
  | .flagRunning => some (inner.flagRunning, .stopNotify)
  | .stopNotify => some (inner.notify, .takeHandle)
  -- Whoever finds no handle returns at once.
  | .takeHandle =>
      if inner.handle then some ({ inner with handle := false }, .polling)
      else some (inner, .stopReturned true)
  | .polling => match inner.worker with
      | .gone => some (inner, .stopReturned true)
      | _ => if late then some (inner, .stopReturned false) else none
  | .stopReturned _ => none

theorem Call.advance_inner {late : Bool} {inner after : Inner Id Mix Sep}
    {call next : Call Id Sep} (done : call.advance late inner = some (after, next)) :
    after = inner ∨ ∃ action, inner.step action = some after ∧ action.isCallers = true ∧
      ∀ id, action = .cancelPending id → call = .cancelPending id := by
  cases call with
  | cancelPending id =>
      cases done
      exact .inr ⟨.cancelPending id, rfl, rfl, fun _ is => by cases is; rfl⟩
  | cancelRunning id =>
      cases done
      exact .inr ⟨.cancelRunning id, rfl, rfl, by simp⟩
  | stage build =>
      simp only [advance] at done
      split at done
      · rename_i channel superseded staging staged
        cases done
        exact .inr ⟨.stage build, by rw [Inner.step, staged]; rfl, rfl, by simp⟩
      · cases done
        exact .inl rfl
  | supersede channel superseded =>
      cases superseded with
      | some staged =>
          cases done
          exact .inr ⟨.send staged.reply .superseded, rfl, rfl, by simp⟩
      | none =>
          cases done
          exact .inl rfl
  | installNotify channel =>
      cases done
      exact .inr ⟨.notify, rfl, rfl, by simp⟩
  | receive channel =>
      simp only [advance] at done
      split at done
      · cases done
        exact .inl rfl
      · cases done
  | shut =>
      cases done
      exact .inr ⟨.shut, rfl, rfl, by simp⟩
  | letGo =>
      cases done
      exact .inr ⟨.letGo, rfl, rfl, by simp⟩
  | flagRunning =>
      cases done
      exact .inr ⟨.flagRunning, rfl, rfl, by simp⟩
  | stopNotify =>
      cases done
      exact .inr ⟨.notify, rfl, rfl, by simp⟩
  | takeHandle =>
      simp only [advance] at done
      split at done
      · cases done
        exact .inr ⟨.takeHandle, rfl, rfl, by simp⟩
      · cases done
        exact .inl rfl
  | polling =>
      simp only [advance] at done
      split at done
      · cases done
        exact .inl rfl
      · split at done
        · cases done
          exact .inl rfl
        · cases done
  | cancelReturned _ _ => cases done
  | installReturned _ => cases done
  | stopReturned _ => cases done

def Call.cancels {Id Sep : Type} : Call Id Sep → Option Id
  | .cancelPending id | .cancelRunning id | .cancelReturned id _ => some id
  | _ => none

theorem Call.advance_cancels {late : Bool} {inner after : Inner Id Mix Sep}
    {call next : Call Id Sep} (done : call.advance late inner = some (after, next)) :
    next.cancels = call.cancels := by
  cases call with
  | cancelPending id =>
      cases done
      split <;> rfl
  | cancelRunning id =>
      cases done
      rfl
  | supersede channel superseded => cases superseded <;> cases done <;> rfl
  | stage _ | receive _ | takeHandle =>
      simp only [advance] at done
      split at done <;> cases done <;> rfl
  | polling =>
      simp only [advance] at done
      split at done
      · cases done
        rfl
      · split at done <;> cases done
        rfl
  | installNotify _ | shut | letGo | flagRunning | stopNotify =>
      cases done
      rfl
  | cancelReturned _ _ | installReturned _ | stopReturned _ => cases done

theorem Call.advance_removed {late : Bool} {inner after : Inner Id Mix Sep}
    {call next : Call Id Sep} (served : inner.Served)
    (done : call.advance late inner = some (after, next)) {id : Id}
    (gone : id ∈ after.history.removed) :
    id ∈ inner.history.removed ∨
      call = .cancelPending id ∧ next = .cancelReturned id true ∧ id ∈ inner.waiting := by
  rcases advance_inner done with same | ⟨action, step, callers, only⟩
  · exact .inl (same ▸ gone)
  · rcases Inner.step_cases served step with same | ⟨work, is, -⟩ | ⟨job, is, -⟩ |
      ⟨work, rest, is, -⟩ | ⟨claimed, is, -⟩
    · have ledger : after.history.removed = inner.history.removed :=
        congrArg Ledger.removed same.ledger
      exact .inl (ledger ▸ gone)
    · subst is
      cases callers
    · cases only job is
      cases done
      rcases List.mem_append.mp gone with old | new
      · exact .inl old
      · obtain ⟨member, own⟩ := List.mem_filter.mp new
        cases of_decide_eq_true own
        obtain ⟨work, inside, mine⟩ := List.mem_map.mp member
        have shorter : (inner.pending.filter fun w => w.job ≠ id).length ≠
            inner.pending.length := fun same =>
          of_decide_eq_true (List.length_filter_eq_length_iff.mp same work inside) mine
        exact .inr ⟨rfl, by simp only [decide_eq_true shorter, if_true], member⟩
    · subst is
      cases callers
    · subst is
      cases callers

structure State (Id Mix Sep : Type) where
  inner : Inner Id Mix Sep
  calls : List (Call Id Sep)

inductive WorkerStep where
  | next
  | built (outcome : BuildOutcome)
  | answered
  | finished

def WorkerStep.action {Id Mix Sep : Type} : WorkerStep → Action Id Mix Sep
  | .next => .next
  | .built outcome => .built outcome
  | .answered => .answered
  | .finished => .finished

inductive Event (Id Mix Sep : Type) where
  /-- `submit` holds one lock throughout. -/
  | submit (work : QueuedWork Id Mix)
  | call (method : Method Id Sep)
  | advance (caller : Nat) (late : Bool)
  | worker (step : WorkerStep)

def State.step (state : State Id Mix Sep) : Event Id Mix Sep → Option (State Id Mix Sep)
  | .submit work => (state.inner.step (.submit work)).map fun after => { state with inner := after }
  | .call method => some { state with calls := state.calls ++ [method.enter] }
  | .advance caller late => do
      let call ← state.calls[caller]?
      let (after, next) ← call.advance late state.inner
      some ⟨after, state.calls.set caller next⟩
  | .worker step => (state.inner.step step.action).map fun after => { state with inner := after }

def State.start (model : Sep) (maxDepth : Nat) : State Id Mix Sep := ⟨.start model maxDepth, []⟩

def system (model : Sep) (maxDepth : Nat) : System (State Id Mix Sep) (Event Id Mix Sep) :=
  ⟨.start model maxDepth, State.step⟩

inductive Move (before : State Id Mix Sep) : Event Id Mix Sep → State Id Mix Sep → Prop where
  | submit {work : QueuedWork Id Mix} {after : Inner Id Mix Sep}
      (done : before.inner.step (.submit work) = some after) :
      Move before (.submit work) { before with inner := after }
  | call (method : Method Id Sep) :
      Move before (.call method) { before with calls := before.calls ++ [method.enter] }
  | advance {caller : Nat} {late : Bool} {call next : Call Id Sep} {after : Inner Id Mix Sep}
      (here : before.calls[caller]? = some call)
      (done : call.advance late before.inner = some (after, next)) :
      Move before (.advance caller late) ⟨after, before.calls.set caller next⟩
  | worker {step : WorkerStep} {after : Inner Id Mix Sep}
      (done : before.inner.step step.action = some after) :
      Move before (.worker step) { before with inner := after }

theorem move_of_step {before after : State Id Mix Sep} {event : Event Id Mix Sep}
    (done : before.step event = some after) : Move before event after := by
  cases event with
  | submit work =>
      obtain ⟨inner, step, rfl⟩ := Option.map_eq_some_iff.mp done
      exact .submit step
  | call method =>
      cases done
      exact .call method
  | advance caller late =>
      simp only [State.step, Option.bind_eq_bind, Option.bind_eq_some_iff] at done
      obtain ⟨call, here, ⟨inner, next⟩, step, same⟩ := done
      cases same
      exact .advance here step
  | worker step =>
      obtain ⟨inner, step, rfl⟩ := Option.map_eq_some_iff.mp done
      exact .worker step

theorem Move.inner {before after : State Id Mix Sep} {event : Event Id Mix Sep}
    (move : Move before event after) :
    after.inner = before.inner ∨ ∃ action, before.inner.step action = some after.inner ∧
      ∀ work, action = .submit work → event = .submit work := by
  cases move with
  | submit done => exact .inr ⟨_, done, fun _ is => by cases is; rfl⟩
  | call method => exact .inl rfl
  | advance here done =>
      rcases Call.advance_inner done with same | ⟨action, step, other, -⟩
      · exact .inl same
      · exact .inr ⟨action, step, fun work is => by subst is; cases other⟩
  | @worker step _ done =>
      exact .inr ⟨step.action, done, fun _ is => by cases step <;> cases is⟩

def SubmitsOnce (state : State Id Mix Sep) : Event Id Mix Sep → Prop
  | .submit work => work.job ∉ state.inner.history.accepted
  | _ => True

instance (state : State Id Mix Sep) (event : Event Id Mix Sep) :
    Decidable (SubmitsOnce state event) := by
  cases event <;> unfold SubmitsOnce <;> infer_instance

theorem inner_reaches {model : Sep} {maxDepth : Nat}
    {ok : State Id Mix Sep → Event Id Mix Sep → Prop}
    {ok' : Inner Id Mix Sep → Action Id Mix Sep → Prop}
    (submits : ∀ state work, ok state (.submit work) → ok' state.inner (.submit work))
    (others : ∀ inner action, (∀ work, action ≠ .submit work) → ok' inner action)
    {state : State Id Mix Sep}
    (run : (system model maxDepth).Reaches ok (.start model maxDepth) state) :
    (innerSystem model maxDepth).Reaches ok' (.start model maxDepth) state.inner := by
  refine run.project (innerSystem model maxDepth) State.inner
    fun before event after _ allowed done => ?_
  rcases (move_of_step done).inner with same | ⟨action, step, submission⟩
  · exact .inl same
  · refine .inr ⟨action, ?_, step⟩
    cases action with
    | submit work =>
        cases submission work rfl
        exact submits _ _ allowed
    | _ => exact others _ _ (by simp)

theorem inner_reaches_once {model : Sep} {maxDepth : Nat} {state : State Id Mix Sep}
    (run : (system model maxDepth).Reaches SubmitsOnce (.start model maxDepth) state) :
    (innerSystem model maxDepth).Reaches Inner.SubmitsOnce (.start model maxDepth) state.inner :=
  inner_reaches (fun _ _ once => once)
    (fun _ action other => by cases action <;> first | trivial | exact absurd rfl (other _)) run

theorem inner_reaches_any {model : Sep} {maxDepth : Nat}
    {ok : State Id Mix Sep → Event Id Mix Sep → Prop} {state : State Id Mix Sep}
    (run : (system model maxDepth).Reaches ok (.start model maxDepth) state) :
    (innerSystem model maxDepth).Reaches System.Any (.start model maxDepth) state.inner :=
  inner_reaches (fun _ _ _ => trivial) (fun _ _ _ => trivial) run

end Stemd.Queue
