import Stemd.Queue.Calls

/-! What a stop leaves behind, and what its answer is worth.

The flag is honoured by the worker and by `install`. `submit` does not read it, and the
answer of a stop that finds the join handle already taken does not look at the worker. -/

set_option autoImplicit false

namespace Stemd.Queue

open Stemd.Core
open Stemd.Semantics

variable {Id Mix Sep : Type} [DecidableEq Id]

def Call.looked {Id Sep : Type} : Call Id Sep → Bool
  | .stopNotify | .takeHandle | .polling | .stopReturned _ => true
  | _ => false

structure Inner.Halted (before after : Inner Id Mix Sep) : Prop where
  shutdown : after.shutdown = true
  taken : after.history.taken = before.history.taken
  models : after.history.models = before.history.models
  running : after.running = before.running ∨ after.running = none
  flags : ∀ flag : Nat, before.flags[flag]? = some true → after.flags[flag]? = some true

omit [DecidableEq Id] in
theorem notify_halted {before inner : Inner Id Mix Sep} (halted : Inner.Halted before inner) :
    Inner.Halted before inner.notify := by
  rcases inner.notify_frame with same | ⟨-, same⟩ <;> rw [same]
  · exact halted
  · exact ⟨halted.shutdown, halted.taken, halted.models, halted.running, halted.flags⟩

theorem halted_step {inner after : Inner Id Mix Sep} {action : Action Id Mix Sep}
    (stopped : inner.shutdown = true) (done : inner.step action = some after) :
    Inner.Halted inner after := by
  have still : Inner.Halted inner inner := ⟨stopped, rfl, rfl, .inl rfl, fun _ raised => raised⟩
  cases Inner.steps_of_step done with
  | accepted work room =>
      exact notify_halted ⟨stopped, rfl, rfl, .inl rfl, fun _ raised => raised⟩
  | refused _ => exact still
  | notified => exact notify_halted still
  | cancelledRunning id flags raises => exact ⟨stopped, rfl, rfl, .inl rfl, raises.2⟩
  | flagged flags raises => exact ⟨stopped, rfl, rfl, .inl rfl, raises.2⟩
  | shut => exact ⟨rfl, rfl, rfl, .inl rfl, fun _ raised => raised⟩
  -- The flag is set, so nothing is staged and the worker takes nothing.
  | staged _ open' | takenModel _ _ open' | takenJob _ _ _ open' | parked _ open' =>
      cases stopped.symm.trans open'
  | built staged outcome building =>
      cases outcome <;> exact ⟨stopped, rfl, rfl, .inl rfl, fun _ raised => raised⟩
  | finished claimed separating => exact ⟨stopped, rfl, rfl, .inr rfl, fun _ raised => raised⟩
  | _ => exact ⟨stopped, rfl, rfl, .inl rfl, fun _ raised => raised⟩

omit [DecidableEq Id] in
theorem Inner.Halted.trans {first second third : Inner Id Mix Sep}
    (before : Inner.Halted first second) (after : Inner.Halted second third) :
    Inner.Halted first third where
  shutdown := after.shutdown
  taken := after.taken.trans before.taken
  models := after.models.trans before.models
  running := by
    rcases after.running with same | none
    · exact same ▸ before.running
    · exact .inr none
  flags := fun flag raised => after.flags flag (before.flags flag raised)

theorem halted_move {before after : State Id Mix Sep} {event : Event Id Mix Sep}
    (stopped : before.inner.shutdown = true) (move : Move before event after) :
    Inner.Halted before.inner after.inner := by
  rcases move.inner with same | ⟨action, step, -⟩
  · rw [same]
    exact ⟨stopped, rfl, rfl, .inl rfl, fun _ raised => raised⟩
  · exact halted_step stopped step

def Call.stopping {Id Sep : Type} : Call Id Sep → Bool
  | .letGo | .flagRunning => true
  | call => call.looked

/-- Once a stop has looked at the running slot, the job there has been told. -/
structure Told (state : State Id Mix Sep) : Prop where
  shutdown : ∀ (caller : Nat) (call : Call Id Sep), state.calls[caller]? = some call →
    call.stopping = true → state.inner.shutdown = true
  flagged : ∀ (caller : Nat) (call : Call Id Sep) running, state.calls[caller]? = some call →
    call.looked = true → state.inner.running = some running →
      state.inner.flags[running.cancel]? = some true

theorem looked_stopping {Id Sep : Type} {call : Call Id Sep} (looked : call.looked = true) :
    call.stopping = true := by
  cases call <;> first | rfl | exact looked

omit [DecidableEq Id] in
theorem Told.carry {before : State Id Mix Sep} {inner : Inner Id Mix Sep} (told : Told before)
    {caller : Nat} {call : Call Id Sep} (here : before.calls[caller]? = some call)
    (halted : before.inner.shutdown = true → Inner.Halted before.inner inner) :
    (call.stopping = true → inner.shutdown = true) ∧
      ∀ running, call.looked = true → inner.running = some running →
        inner.flags[running.cancel]? = some true := by
  refine ⟨fun stopping => (halted (told.shutdown caller call here stopping)).shutdown,
    fun running looked busy => ?_⟩
  have kept := halted (told.shutdown caller call here (looked_stopping looked))
  rcases kept.running with same | none
  · exact kept.flags _ (told.flagged caller call running here looked (same ▸ busy))
  · rw [none] at busy
    cases busy

theorem told_of_not_stopping {Id Mix Sep : Type} {call : Call Id Sep} (inner : Inner Id Mix Sep)
    (early : call.stopping = false) :
    (call.stopping = true → inner.shutdown = true) ∧
      ∀ running, call.looked = true → inner.running = some running →
        inner.flags[running.cancel]? = some true := by
  refine ⟨fun stopping => ?_, fun running looked => ?_⟩
  · rw [early] at stopping
    cases stopping
  · rw [looked_stopping looked] at early
    cases early

theorem told_advance {inner after : Inner Id Mix Sep} {call next : Call Id Sep} {late : Bool}
    (served : inner.Served) (done : call.advance late inner = some (after, next))
    (stopping : call.stopping = true → inner.shutdown = true)
    (flagged : ∀ running, call.looked = true → inner.running = some running →
      inner.flags[running.cancel]? = some true) :
    (next.stopping = true → after.shutdown = true) ∧
      ∀ running, next.looked = true → after.running = some running →
        after.flags[running.cancel]? = some true := by
  cases call with
  | cancelPending id =>
      simp only [Call.advance, Option.some.injEq, Prod.mk.injEq] at done
      obtain ⟨-, rfl⟩ := done
      split <;> exact told_of_not_stopping _ rfl
  | cancelRunning id =>
      cases done
      exact told_of_not_stopping _ rfl
  | stage build =>
      simp only [Call.advance] at done
      split at done <;> cases done <;> exact told_of_not_stopping _ rfl
  | supersede channel superseded =>
      cases superseded <;> cases done <;> exact told_of_not_stopping _ rfl
  | installNotify channel =>
      cases done
      exact told_of_not_stopping _ rfl
  | receive channel =>
      simp only [Call.advance] at done
      split at done <;> cases done
      exact told_of_not_stopping _ rfl
  | shut =>
      cases done
      refine ⟨fun _ => rfl, fun _ looked => ?_⟩
      cases looked
  | letGo =>
      cases done
      rw [Inner.letGo_frame]
      refine ⟨fun _ => stopping rfl, fun _ looked => ?_⟩
      cases looked
  | flagRunning =>
      cases done
      refine ⟨fun _ => ?_, fun running _ busy => ?_⟩
      · rw [(inner.flagRunning_frame).1]
        exact stopping rfl
      · rw [(inner.flagRunning_frame).1] at busy
        change inner.running = some running at busy
        have inside := served.flagged running busy
        simp only [Inner.flagRunning, busy, Inner.setFlag, List.getElem?_set_self inside]
  | stopNotify =>
      cases done
      rcases inner.notify_frame with same | ⟨-, same⟩ <;> rw [same] <;>
        exact ⟨fun _ => stopping rfl, fun running _ busy => flagged running rfl busy⟩
  | takeHandle =>
      simp only [Call.advance] at done
      split at done <;> cases done <;>
        exact ⟨fun _ => stopping rfl, fun running _ busy => flagged running rfl busy⟩
  | polling =>
      simp only [Call.advance] at done
      split at done
      · cases done
        exact ⟨fun _ => stopping rfl, fun running _ busy => flagged running rfl busy⟩
      · split at done <;> cases done
        exact ⟨fun _ => stopping rfl, fun running _ busy => flagged running rfl busy⟩
  | cancelReturned _ _ => cases done
  | installReturned _ => cases done
  | stopReturned _ => cases done

theorem Told.move {before after : State Id Mix Sep} {event : Event Id Mix Sep}
    (told : Told before) (served : before.inner.Served) (move : Move before event after) :
    Told after := by
  have halted := fun stopped => halted_move stopped move
  cases move with
  | submit done =>
      exact ⟨fun caller call here => (told.carry here halted).1,
        fun caller call running here => (told.carry here halted).2 running⟩
  | worker done =>
      exact ⟨fun caller call here => (told.carry here halted).1,
        fun caller call running here => (told.carry here halted).2 running⟩
  | call method =>
      have fresh : method.enter.stopping = false := by cases method <;> rfl
      have either : ∀ (caller : Nat) call, (before.calls ++ [method.enter])[caller]? = some call →
          before.calls[caller]? = some call ∨ call = method.enter := by
        intro caller call here
        rw [List.getElem?_append] at here
        split at here
        · exact .inl here
        · exact .inr (List.mem_singleton.mp (List.mem_of_getElem? here))
      refine ⟨fun caller call here stopping => ?_, fun caller call running here looked => ?_⟩
      · rcases either caller call here with old | rfl
        · exact (told.carry old halted).1 stopping
        · exact (told_of_not_stopping _ fresh).1 stopping
      · rcases either caller call here with old | rfl
        · exact (told.carry old halted).2 running looked
        · exact (told_of_not_stopping _ fresh).2 running looked
  | @advance mover late moving next inner here done =>
      have moved := told_advance served done (told.shutdown mover moving here)
        fun running => told.flagged mover moving running here
      have either : ∀ (caller : Nat) call, (before.calls.set mover next)[caller]? = some call →
          before.calls[caller]? = some call ∨ call = next := by
        intro caller call there
        rw [List.getElem?_set] at there
        split at there
        · split at there <;> cases there
          exact .inr rfl
        · exact .inl there
      refine ⟨fun caller call there stopping => ?_, fun caller call running there looked => ?_⟩
      · rcases either caller call there with old | rfl
        · exact (told.carry old halted).1 stopping
        · exact moved.1 stopping
      · rcases either caller call there with old | rfl
        · exact (told.carry old halted).2 running looked
        · exact moved.2 running looked

theorem told_of_reaches {model : Sep} {maxDepth : Nat}
    {ok : State Id Mix Sep → Event Id Mix Sep → Prop} {state : State Id Mix Sep}
    (run : (system model maxDepth).Reaches ok (.start model maxDepth) state) : Told state :=
  run.invariant ⟨fun _ _ here => by simp [State.start] at here,
      fun _ _ _ here => by simp [State.start] at here⟩
    fun _ _ _ path told _ done =>
      told.move (Inner.served_of_reaches (inner_reaches_any path)) (move_of_step done)

structure Stopped (before after : State Id Mix Sep) : Prop where
  halted : Inner.Halted before.inner after.inner
  accepted : after.inner.history.accepted = before.inner.history.accepted
  refused : ∀ (caller : Nat) build, before.calls[caller]? = some (.stage build) →
    after.calls[caller]? = some (.stage build) ∨
      after.calls[caller]? = some (.installReturned .shuttingDown)
  told : ∀ (caller : Nat) (call : Call Id Sep) running,
    after.calls[caller]? = some call → call.looked = true →
      after.inner.running = some running → after.inner.flags[running.cancel]? = some true

/-- After the flag is set, `submit` is called only while it is full. -/
def SubmitsFull (state : State Id Mix Sep) : Event Id Mix Sep → Prop
  | .submit _ => state.inner.shutdown = true → state.inner.maxDepth ≤ state.inner.pending.length
  | _ => True

theorem Stopped.refused_move {before state after : State Id Mix Sep} {event : Event Id Mix Sep}
    (stopped : Stopped before state) (move : Move state event after) :
    ∀ (caller : Nat) build, before.calls[caller]? = some (.stage build) →
      after.calls[caller]? = some (.stage build) ∨
        after.calls[caller]? = some (.installReturned .shuttingDown) := by
  intro caller build entering
  have now := stopped.refused caller build entering
  cases move with
  | submit done => exact now
  | worker done => exact now
  | call method =>
      rcases now with now | now
      · exact .inl (List.getElem?_append_left (List.getElem?_eq_some_iff.mp now).1 ▸ now)
      · exact .inr (List.getElem?_append_left (List.getElem?_eq_some_iff.mp now).1 ▸ now)
  | @advance mover late moving next inner here done =>
      by_cases own : mover = caller
      · subst own
        have inside := (List.getElem?_eq_some_iff.mp here).1
        rw [here] at now
        rcases now with now | now <;> cases now
        · have none : state.inner.stage build = none := if_pos stopped.halted.shutdown
          simp only [Call.advance, none] at done
          cases done
          exact .inr (List.getElem?_set_self inside)
        · cases done
      · simpa only [List.getElem?_set_ne own] using now

/-- From a state in which the flag is set, a step keeps everything stopped exactly when it
is not a submission that finds room. -/
theorem Stopped.move_iff {before state after : State Id Mix Sep} {event : Event Id Mix Sep}
    (stopped : Stopped before state) (served : state.inner.Served) (told : Told state)
    (move : Move state event after) : Stopped before after ↔ SubmitsFull state event := by
  have flag := stopped.halted.shutdown
  constructor
  · intro still
    cases move with
    | @submit work inner done =>
        intro _
        by_contra room
        have accepted : state.inner.submit work = .ok (_, _) := if_neg room
        rw [Inner.step_submit accepted] at done
        rw [Option.some.inj done] at accepted
        have longer := congrArg Ledger.accepted (Inner.submit_ledger accepted)
        have same : inner.history.accepted = state.inner.history.accepted :=
          still.accepted.trans stopped.accepted.symm
        have lengths := congrArg List.length (longer.symm.trans same)
        simp [Inner.ledger] at lengths
    | call _ => trivial
    | advance _ _ => trivial
    | worker _ => trivial
  · intro full
    have kept : after.inner.history.accepted = state.inner.history.accepted := by
      rcases move.inner with same | ⟨action, step, submission⟩
      · rw [same]
      · cases action with
        | submit work =>
            cases submission work rfl
            have refused : state.inner.submit work = .error _ := if_pos (full flag)
            rw [Inner.step, refused] at step
            rw [← Option.some.inj step]
        | _ => exact Inner.accepted_step served step (by simp)
    exact ⟨stopped.halted.trans (halted_move flag move), kept.trans stopped.accepted,
      stopped.refused_move move, (told.move served move).flagged⟩

/-- After the flag is set, and as long as every `submit` finds the queue full, no job and
no model is taken, nothing is accepted, every install is refused and the job under way is
told. A `submit` that finds room is accepted all the same. -/
theorem stopped_after_stop (model : Sep) (maxDepth : Nat) (before : State Id Mix Sep)
    (reached : (system model maxDepth).Reachable before)
    (flag : before.inner.shutdown = true) :
    (∀ state, (system model maxDepth).Reaches SubmitsFull before state → Stopped before state) ∧
      ∀ state event after, (system model maxDepth).Reaches SubmitsFull before state →
        state.step event = some after → (Stopped before after ↔ SubmitsFull state event) := by
  have origin : Stopped before before :=
    ⟨⟨flag, rfl, rfl, .inl rfl, fun _ raised => raised⟩, rfl, fun _ _ here => .inl here,
      (told_of_reaches reached).flagged⟩
  have served : ∀ {state}, (system model maxDepth).Reaches SubmitsFull before state →
      state.inner.Served := fun path =>
    Inner.served_of_reaches (inner_reaches_any (reached.trans path.any))
  have told : ∀ {state}, (system model maxDepth).Reaches SubmitsFull before state →
      Told state := fun path => told_of_reaches (reached.trans path.any)
  have all : ∀ state, (system model maxDepth).Reaches SubmitsFull before state →
      Stopped before state := fun state run =>
    run.invariant origin fun _ _ _ path stopped full done =>
      (stopped.move_iff (served path) (told path) (move_of_step done)).mpr full
  exact ⟨all, fun state event after run done =>
    (all state run).move_iff (served run) (told run) (move_of_step done)⟩

def demoJob : QueuedWork String Unit := ⟨"0f1e2d3c4b5a-1", (), ⟨.flac, .hz44100, true, .general⟩⟩

def Worker.out {Id Mix Sep : Type} : Worker Id Mix Sep → Bool
  | .gone => true
  | _ => false

def waitingJob : QueuedWork String Unit := ⟨"5b4c3d2e1f0a-2", (), demoJob.output⟩

instance (state : State String Unit String) (event : Event String Unit String) :
    Decidable (SubmitsFull state event) :=
  match event with
  | .submit _ => inferInstanceAs (Decidable (_ → _))
  | .call _ | .advance _ _ | .worker _ => .isTrue trivial

def stopping : List (Event String Unit String) :=
  [.submit ⟨"6c5d4e3f2a1b-3", (), demoJob.output⟩, .advance 1 false] ++
    List.replicate 4 (.advance 0 false) ++ [.worker .finished, .worker .next]

/-- The flag is set with one job being separated, one that fills the queue and a model about to be
installed. A third job and the model are refused, and the worker goes without the second job. -/
theorem busy_queue_is_stopped :
    ∃ before after : State String Unit String, before.inner.shutdown = true ∧
      before.inner.running.map (·.id) = some demoJob.job ∧
      before.inner.waiting = [waitingJob.job] ∧ before.calls[1]? = some (.stage "hybrid") ∧
      after.calls[1]? = some (.installReturned .shuttingDown) ∧ after.inner.worker.out = true ∧
      after.inner.history.accepted = [demoJob.job, waitingJob.job] ∧ Stopped before after := by
  have stop : ∃ before : State String Unit String,
      (system "htdemucs" 1).Reaches System.Any (.start "htdemucs" 1) before ∧
        before.inner.shutdown = true ∧ before.inner.running.map (·.id) = some demoJob.job ∧
          before.inner.waiting = [waitingJob.job] ∧ before.calls[1]? = some (.stage "hybrid") ∧
            ((system "htdemucs" 1).replay SubmitsFull before stopping).any (fun after =>
              decide (after.calls[1]? = some (.installReturned .shuttingDown) ∧
                after.inner.worker.out = true ∧
                  after.inner.history.accepted = [demoJob.job, waitingJob.job])) = true :=
    System.exists_of_replay [.submit demoJob, .worker .next, .submit waitingJob, .call .stop,
      .call (.install "hybrid"), .advance 0 false] (by decide)
  obtain ⟨before, reached, flag, running, waiting, entering, rest⟩ := stop
  obtain ⟨after, path, refused, out, accepted⟩ := System.exists_of_replay stopping rest
  exact ⟨before, after, flag, running, waiting, entering, refused, out, accepted,
    (stopped_after_stop "htdemucs" 1 before reached flag).1 after path⟩

/-- The worker has gone, and a job is still accepted. -/
theorem accepted_after_stop :
    ¬ ∀ before : State String Unit String, (system "htdemucs" 4).Reachable before →
      before.inner.shutdown = true → ∀ state,
        (system "htdemucs" 4).Reaches System.Any before state → Stopped before state := by
  intro claim
  have stop : ∃ before : State String Unit String,
      (system "htdemucs" 4).Reaches System.Any (.start "htdemucs" 4) before ∧
        before.inner.shutdown = true ∧ before.inner.worker.out = true ∧
          before.inner.history.accepted = [] ∧
            (before.step (.submit demoJob)).any (fun after =>
              decide (after.inner.history.accepted = [demoJob.job])) = true :=
    System.exists_of_replay [.call .stop, .advance 0 false, .worker .next] (by decide)
  obtain ⟨before, reached, flag, -, nothing, submitted⟩ := stop
  obtain ⟨after, step, accepted⟩ := (Option.any_eq_true _ _).mp submitted
  have later : (system "htdemucs" 4).Reaches System.Any before after :=
    .tail (a := .submit demoJob) .refl trivial step
  have kept := (claim before reached flag after later).accepted
  rw [of_decide_eq_true accepted, nothing] at kept
  cases kept

def OutOfTheModel (state : State Id Mix Sep) : Prop :=
  ∀ caller : Nat, state.calls[caller]? = some (.stopReturned true) → state.inner.worker = .gone

/-- A stop that reaches the join handle finds it there, unless the worker has gone. -/
def FindsHandle (state : State Id Mix Sep) : Event Id Mix Sep → Prop
  | .advance caller _ => state.calls[caller]? = some .takeHandle →
      state.inner.handle = true ∨ state.inner.worker = .gone
  | _ => True

theorem gone_step {inner after : Inner Id Mix Sep} {action : Action Id Mix Sep}
    (gone : inner.worker = .gone) (done : inner.step action = some after) :
    after.worker = .gone := by
  have notified : ∀ {inner : Inner Id Mix Sep}, inner.worker = .gone →
      inner.notify.worker = .gone := by
    intro inner gone
    rw [Inner.notify, gone]
    exact gone
  cases Inner.steps_of_step done with
  | accepted work room => exact notified gone
  | notified => exact notified gone
  | left at' | takenModel _ at' | takenJob _ _ at' | parked at' => cases at'.symm.trans gone
  | built _ _ at' | answered _ at' | finished _ at' => cases at'.symm.trans gone
  | _ => exact gone

theorem gone_move {before after : State Id Mix Sep} {event : Event Id Mix Sep}
    (gone : before.inner.worker = .gone) (move : Move before event after) :
    after.inner.worker = .gone := by
  rcases move.inner with same | ⟨action, step, -⟩
  · rw [same]
    exact gone
  · exact gone_step gone step

/-- The only step to an answer of true that does not look at the worker is the one that
finds no handle. -/
theorem returns_true {inner after : Inner Id Mix Sep} {call : Call Id Sep} {late : Bool}
    (done : call.advance late inner = some (after, .stopReturned true)) :
    after = inner ∧ (inner.worker = .gone ∨ call = .takeHandle ∧ inner.handle = false) := by
  cases call with
  | takeHandle =>
      simp only [Call.advance] at done
      split at done
      · cases done
      · rename_i absent
        cases done
        exact ⟨rfl, .inr ⟨rfl, by simpa using absent⟩⟩
  | polling =>
      simp only [Call.advance] at done
      split at done
      · rename_i gone
        cases done
        exact ⟨rfl, .inl gone⟩
      · split at done <;> cases done
  | cancelPending id =>
      simp only [Call.advance, Option.some.injEq, Prod.mk.injEq] at done
      obtain ⟨-, same⟩ := done
      split at same <;> cases same
  | stage build =>
      simp only [Call.advance] at done
      split at done <;> cases done
  | supersede channel superseded => cases superseded <;> cases done
  | receive channel =>
      simp only [Call.advance] at done
      split at done <;> cases done
  | _ => cases done

theorem outOfTheModel_move_iff {before after : State Id Mix Sep} {event : Event Id Mix Sep}
    (out : OutOfTheModel before) (move : Move before event after) :
    OutOfTheModel after ↔ FindsHandle before event := by
  constructor
  · intro still
    cases move with
    | @advance mover late moving next inner here done =>
        intro taking
        rw [here] at taking
        cases taking
        by_contra neither
        obtain ⟨absent, busy⟩ := not_or.mp neither
        have returned : Call.advance late before.inner (.takeHandle : Call Id Sep) =
            some (before.inner, .stopReturned true) := if_neg absent
        rw [returned] at done
        cases done
        exact busy (still mover (List.getElem?_set_self (List.getElem?_eq_some_iff.mp here).1))
    | submit _ => trivial
    | call _ => trivial
    | worker _ => trivial
  · intro finds caller answered
    have already : before.calls[caller]? = some (.stopReturned true) →
        after.inner.worker = .gone := fun old => gone_move (out caller old) move
    cases move with
    | submit _ => exact already answered
    | worker _ => exact already answered
    | call method =>
        rw [List.getElem?_append] at answered
        split at answered
        · exact already answered
        · have fresh := List.mem_singleton.mp (List.mem_of_getElem? answered)
          cases method <;> cases fresh
    | @advance mover late moving next inner here done =>
        rw [List.getElem?_set] at answered
        split at answered
        · split at answered <;> cases answered
          -- Either the worker was looked at, or the handle was found taken.
          obtain ⟨rfl, gone | ⟨rfl, absent⟩⟩ := returns_true done
          · exact gone
          · exact (finds here).resolve_left (by simp [absent])
        · exact already answered

/-- An answer of true means the worker is out exactly as long as no stop finds the handle
taken while the worker is still there. -/
theorem out_of_the_model (model : Sep) (maxDepth : Nat) :
    (∀ state : State Id Mix Sep,
      (system model maxDepth).Reaches FindsHandle (.start model maxDepth) state →
        OutOfTheModel state) ∧
      ∀ (state after : State Id Mix Sep) event,
        (system model maxDepth).Reaches FindsHandle (.start model maxDepth) state →
          state.step event = some after → (OutOfTheModel after ↔ FindsHandle state event) := by
  have all : ∀ state : State Id Mix Sep,
      (system model maxDepth).Reaches FindsHandle (.start model maxDepth) state →
        OutOfTheModel state := fun state run =>
    run.invariant (fun _ here => by simp [State.start] at here)
      fun _ _ _ _ out finds done => (outOfTheModel_move_iff out (move_of_step done)).mpr finds
  exact ⟨all, fun state after event run done =>
    outOfTheModel_move_iff (all state run) (move_of_step done)⟩

instance (worker : Worker String Unit String) : Decidable (worker = .gone) :=
  match worker with
  | .gone => .isTrue rfl
  | .looking | .parked | .building _ | .answering _ | .separating _ => .isFalse nofun

instance (state : State String Unit String) (event : Event String Unit String) :
    Decidable (FindsHandle state event) :=
  match event with
  | .advance _ _ => inferInstanceAs (Decidable (_ → _ ∨ _))
  | .call _ | .submit _ | .worker _ => .isTrue trivial

/-- A stop while a job is being separated, and another once the first has returned. -/
theorem stops_in_order_are_true :
    ∃ state : State String Unit String, state.calls =
      [.stopReturned true, .stopReturned true] ∧ OutOfTheModel state := by
  have stops : ∃ state : State String Unit String,
      (system "htdemucs" 4).Reaches FindsHandle (.start "htdemucs" 4) state ∧
        state.calls = [.stopReturned true, .stopReturned true] :=
    System.exists_of_replay
      ([.submit demoJob, .worker .next, .call .stop] ++ List.replicate 5 (.advance 0 false) ++
        [.worker .finished, .worker .next, .advance 0 false, .call .stop] ++
        List.replicate 5 (.advance 1 false)) (by decide)
  obtain ⟨state, run, answers⟩ := stops
  exact ⟨state, answers, (out_of_the_model "htdemucs" 4).1 state run⟩

/-- Two stops overlap while a job is being separated, and the second is told the worker
is out. -/
theorem second_stop_returns_true :
    ∃ state : State String Unit String,
      (system "htdemucs" 4).Reachable state ∧ state.calls[0]? = some .polling ∧
        state.calls[1]? = some (.stopReturned true) ∧
          state.inner.running.map (·.id) = some demoJob.job ∧ ¬ OutOfTheModel state := by
  have overlap : ∃ state : State String Unit String,
      (system "htdemucs" 4).Reaches System.Any (.start "htdemucs" 4) state ∧
        state.calls[0]? = some .polling ∧ state.calls[1]? = some (.stopReturned true) ∧
          state.inner.running.map (·.id) = some demoJob.job ∧ state.inner.worker.out = false :=
    System.exists_of_replay
      [.submit demoJob, .worker .next, .call .stop, .call .stop,
        .advance 0 false, .advance 0 false, .advance 0 false, .advance 0 false, .advance 0 false,
        .advance 1 false, .advance 1 false, .advance 1 false, .advance 1 false, .advance 1 false]
      (by decide)
  obtain ⟨state, reached, polling, answered, busy, inside⟩ := overlap
  refine ⟨state, reached, polling, answered, busy, fun out => ?_⟩
  rw [out 1 answered] at inside
  cases inside

end Stemd.Queue
