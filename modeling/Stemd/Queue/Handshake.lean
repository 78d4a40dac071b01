import Stemd.Queue.Install

/-! What an install is told, and that it is told.

Each answer has one cause, which says what becomes of the worker's separator. Whoever has
staged a model hears of it whatever order those under way come in: what is left to do
shrinks with every step, and somebody can go on for as long as anybody waits. -/

set_option autoImplicit false

namespace Stemd.Queue

open Stemd.Core
open Stemd.Semantics

variable {Id Mix Sep : Type} [DecidableEq Id]

/-- What makes an install hear what it hears. -/
inductive Cause (state : State Id Mix Sep) (channel : Nat) :
    Event Id Mix Sep → Reply Sep → Prop where
  | loaded (staged : Staged Sep) (answering : state.inner.worker = .answering staged)
      (mine : staged.reply = channel) : Cause state channel (.worker .answered) (.loaded staged.build)
  | failed (staged : Staged Sep) (building : state.inner.worker = .building staged)
      (mine : staged.reply = channel) : Cause state channel (.worker (.built .failed)) .failed
  | panicked (staged : Staged Sep) (building : state.inner.worker = .building staged)
      (mine : staged.reply = channel) : Cause state channel (.worker (.built .panicked)) .panicked
  | superseded (caller : Nat) (late : Bool) (replacing : Nat) (staged : Staged Sep)
      (here : state.calls[caller]? = some (.supersede replacing (some staged)))
      (mine : staged.reply = channel) : Cause state channel (.advance caller late) .superseded
  | shuttingDown (caller : Nat) (late : Bool) (staged : Staged Sep)
      (here : state.calls[caller]? = some .letGo) (staging : state.inner.incoming = some staged)
      (stopped : state.inner.shutdown = true) (mine : staged.reply = channel) :
      Cause state channel (.advance caller late) .shuttingDown

omit [DecidableEq Id] in
theorem State.Placed.taken_open {state : State Id Mix Sep} (placed : state.Placed)
    {staged : Staged Sep} (held : state.inner.worker.install = some staged) :
    state.inner.channels[staged.reply]? = some none :=
  placed.unanswered (by rw [held, heldFor_some, if_pos rfl]; omega)

omit [DecidableEq Id] in
theorem State.Placed.staged_open {state : State Id Mix Sep} (placed : state.Placed)
    {staged : Staged Sep} (staging : state.inner.incoming = some staged) :
    state.inner.channels[staged.reply]? = some none :=
  placed.unanswered (by rw [staging, heldFor_some, if_pos rfl]; omega)

omit [DecidableEq Id] in
theorem State.Placed.superseded_open {state : State Id Mix Sep} (placed : state.Placed)
    {caller : Nat} {call : Call Id Sep} {staged : Staged Sep}
    (here : state.calls[caller]? = some call) (is : call.superseded = some staged) :
    state.inner.channels[staged.reply]? = some none := by
  have mine : 0 < state.calls.countP fun call => call.superseded.map (·.reply) = some staged.reply :=
    List.countP_pos_iff.mpr ⟨call, List.mem_of_getElem? here, by simp [is]⟩
  exact placed.unanswered (by omega)

theorem channels_cases {before after : State Id Mix Sep} {event : Event Id Mix Sep}
    (placed : before.Placed) (told : Told before) (move : Move before event after) :
    after.inner.channels = before.inner.channels ∨
      after.inner.channels = before.inner.channels ++ [none] ∨
        ∃ channel reply, before.inner.channels[channel]? = some none ∧
          after.inner.channels = before.inner.channels.set channel (some reply) ∧
            Cause before channel event reply := by
  cases move with
  | submit done =>
      cases Inner.serves_of_step rfl done with
      | aside aside => exact .inl aside.channels
  | call method => exact .inl rfl
  | @worker step after done =>
      generalize is : (step.action : Action Id Mix Sep) = action at done
      have own : action.isCallers = false := is ▸ WorkerStep.own step
      have held : ∀ {staged : Staged Sep}, (before.inner.worker = .building staged ∨
          before.inner.worker = .answering staged) →
            before.inner.channels[staged.reply]? = some none := by
        rintro staged (at' | at') <;> exact placed.taken_open (by rw [at']; rfl)
      cases Inner.serves_of_step own done with
      | aside aside => exact .inl aside.channels
      | taken staged looking open' staging => exact .inl rfl
      | loaded staged building => exact .inl rfl
      | failed staged building =>
          cases step <;> cases is
          exact .inr (.inr ⟨_, _, held (.inl building), rfl, .failed staged building rfl⟩)
      | panicked staged building =>
          cases step <;> cases is
          exact .inr (.inr ⟨_, _, held (.inl building), rfl, .panicked staged building rfl⟩)
      | answered staged answering =>
          cases step <;> cases is
          exact .inr (.inr ⟨_, _, held (.inr answering), rfl, .loaded staged answering rfl⟩)
  | @advance caller late call next inner here done =>
      cases Call.advances_of_advance done with
      | aside aside => exact .inl aside.channels
      | staged build open' => exact .inr (.inl rfl)
      | superseded channel staged =>
          exact .inr (.inr ⟨_, _, placed.superseded_open here rfl, rfl,
            .superseded caller late channel staged here rfl⟩)
      | notified channel => exact .inl before.inner.notify_aside.channels
      | letGo staged staging =>
          exact .inr (.inr ⟨_, _, placed.staged_open staging, rfl,
            .shuttingDown caller late staged here staging
              (told.shutdown caller .letGo here rfl) rfl⟩)
      | refused _ _ | alone _ | received _ _ _ | shut | nobodyLetGo _ => exact .inl rfl

theorem answer_kept {before after : State Id Mix Sep} {event : Event Id Mix Sep}
    (placed : before.Placed) (told : Told before) (move : Move before event after) {channel : Nat}
    {reply : Reply Sep} (answer : before.inner.channels[channel]? = some (some reply)) :
    after.inner.channels[channel]? = some (some reply) := by
  rcases channels_cases placed told move with same | longer | ⟨other, _, open', same, -⟩
  · rw [same, answer]
  · rw [longer, List.getElem?_append_left (List.getElem?_eq_some_iff.mp answer).1, answer]
  · rw [same, List.getElem?_set_ne ?_, answer]
    rintro rfl
    cases open'.symm.trans answer

theorem Cause.answers {before after : State Id Mix Sep} {event : Event Id Mix Sep} {channel : Nat}
    {reply : Reply Sep} (cause : Cause before channel event reply) (placed : before.Placed)
    (move : Move before event after) : after.inner.channels[channel]? = some (some reply) := by
  cases cause with
  | loaded staged answering mine =>
      cases mine
      cases move with
      | worker done =>
          simp only [WorkerStep.action, Inner.step, answering, Option.some.injEq] at done
          rw [← done]
          exact Inner.send_answers _ (placed.taken_open (by rw [answering]; rfl))
  | failed staged building mine | panicked staged building mine =>
      cases mine
      cases move with
      | worker done =>
          simp only [WorkerStep.action, Inner.step, building, Option.some.injEq] at done
          rw [← done]
          exact Inner.send_answers _ (placed.taken_open (by rw [building]; rfl))
  | superseded caller late replacing staged here mine =>
      cases mine
      cases move with
      | advance there done =>
          cases here.symm.trans there
          cases done
          exact Inner.send_answers _ (placed.superseded_open here rfl)
  | shuttingDown caller late staged here staging stopped mine =>
      cases mine
      cases move with
      | advance there done =>
          cases here.symm.trans there
          simp only [Call.advance, Inner.letGo, staging, Option.some.injEq, Prod.mk.injEq] at done
          obtain ⟨rfl, -⟩ := done
          exact Inner.send_answers _ (placed.staged_open staging)

/-- An install hears exactly what one step has for it, and keeps what it has heard. -/
theorem answers_iff {before after : State Id Mix Sep} {event : Event Id Mix Sep}
    (placed : before.Placed) (told : Told before) (move : Move before event after) (channel : Nat)
    (reply : Reply Sep) :
    after.inner.channels[channel]? = some (some reply) ↔
      before.inner.channels[channel]? = some (some reply) ∨
        Cause before channel event reply := by
  constructor
  · intro answer
    rcases channels_cases placed told move with same | longer | ⟨other, given, open', same, cause⟩
    · exact .inl (same ▸ answer)
    · rw [longer, List.getElem?_append] at answer
      split at answer
      · exact .inl answer
      · cases List.mem_singleton.mp (List.mem_of_getElem? answer)
    · rw [same] at answer
      rcases getElem?_set_eq_some answer with ⟨rfl, new⟩ | ⟨-, old⟩
      · cases new
        exact .inr cause
      · exact .inl old
  · rintro (old | cause)
    · exact answer_kept placed told move old
    · exact cause.answers placed move

def Settles (before after : Inner Id Mix Sep) : Reply Sep → Prop
  | .loaded model => before.info = model ∧ after.info = model ∧ after.separator = model
  | .failed | .panicked => before.info = before.separator ∧ after.info = before.info ∧
      after.separator = before.separator
  | _ => after.info = before.info ∧ after.separator = before.separator

theorem Cause.settles {before after : State Id Mix Sep} {event : Event Id Mix Sep} {channel : Nat}
    {reply : Reply Sep} (cause : Cause before channel event reply)
    (described : before.inner.Described) (move : Move before event after) :
    Settles before.inner after.inner reply := by
  cases cause with
  | loaded staged answering mine =>
      cases move with
      | worker done =>
          simp only [WorkerStep.action, Inner.step, answering, Option.some.injEq] at done
          rw [← done]
          exact ⟨described.built staged answering, described.built staged answering, rfl⟩
  | failed staged building mine | panicked staged building mine =>
      cases move with
      | worker done =>
          simp only [WorkerStep.action, Inner.step, building, Option.some.injEq] at done
          rw [← done]
          exact ⟨described.held (by simp [building]), rfl, rfl⟩
  | superseded caller late replacing staged here mine =>
      cases move with
      | advance there done =>
          cases here.symm.trans there
          cases done
          exact ⟨rfl, rfl⟩
  | shuttingDown caller late staged here staging stopped mine =>
      cases move with
      | advance there done =>
          cases here.symm.trans there
          cases done
          rw [Inner.letGo, staging]
          exact ⟨rfl, rfl⟩

structure State.Carries (state : State Id Mix Sep) (channel : Nat) (build : Sep) : Prop where
  inside : channel < state.inner.channels.length
  staged : ∀ staged, state.inner.incoming = some staged → staged.reply = channel →
    staged.build = build
  taken : ∀ staged, state.inner.worker.install = some staged → staged.reply = channel →
    staged.build = build
  superseded : ∀ (caller : Nat) call staged, state.calls[caller]? = some call →
    call.superseded = some staged → staged.reply = channel → staged.build = build
  loaded : ∀ model, state.inner.channels[channel]? = some (some (.loaded model)) → model = build

theorem State.Carries.move {before after : State Id Mix Sep} {event : Event Id Mix Sep}
    {channel : Nat} {build : Sep} (carries : before.Carries channel build)
    (placed : before.Placed) (told : Told before) (move : Move before event after) :
    after.Carries channel build := by
  -- An answer of a model comes from the worker, which holds the build.
  have loaded : ∀ model, after.inner.channels[channel]? = some (some (.loaded model)) →
      model = build := by
    intro model answer
    rcases (answers_iff placed told move channel _).mp answer with old | cause
    · exact carries.loaded model old
    · cases cause with
      | loaded staged answering mine =>
          exact carries.taken staged (by rw [answering]; rfl) mine
  have serve : ∀ {action : Action Id Mix Sep} {inner : Inner Id Mix Sep},
      Inner.Serves before.inner action inner → after = { before with inner := inner } →
        after.Carries channel build := by
    rintro action inner serves rfl
    refine ⟨serves.channels.symm ▸ carries.inside, ?_, ?_, carries.superseded, loaded⟩
    · cases serves with
      | aside aside =>
          rw [aside.incoming]
          exact carries.staged
      | taken staged looking open' staging =>
          rintro other ⟨⟩
      | _ => exact carries.staged
    · cases serves with
      | aside aside =>
          rw [aside.install]
          exact carries.taken
      | taken staged looking open' staging =>
          rintro other ⟨⟩ mine
          exact carries.staged staged staging mine
      | loaded staged building =>
          rintro other ⟨⟩ mine
          exact carries.taken staged (by rw [building]; rfl) mine
      | failed _ _ | panicked _ _ | answered _ _ => rintro other ⟨⟩
  cases move with
  | submit done => exact serve (Inner.serves_of_step rfl done) rfl
  | worker done => exact serve (Inner.serves_of_step (WorkerStep.own _) done) rfl
  | call method =>
      refine ⟨carries.inside, carries.staged, carries.taken, fun caller call staged there is => ?_,
        carries.loaded⟩
      rcases getElem?_enter there with old | rfl
      · exact carries.superseded caller call staged old is
      · cases method <;> cases is
  | @advance mover late call next inner here done =>
      have advances := Call.advances_of_advance done
      refine ⟨Nat.lt_of_lt_of_le carries.inside advances.channel.1, ?_, ?_, ?_, loaded⟩
      · cases advances with
        | aside aside =>
            rw [aside.incoming]
            exact carries.staged
        | notified channel =>
            rw [before.inner.notify_aside.incoming]
            exact carries.staged
        | staged other open' =>
            rintro staged ⟨⟩ mine
            exact absurd mine (Nat.ne_of_gt carries.inside)
        | letGo staged staging => rintro other ⟨⟩
        | _ => exact carries.staged
      · cases advances with
        | aside aside =>
            rw [aside.install]
            exact carries.taken
        | notified channel =>
            rw [before.inner.notify_aside.install]
            exact carries.taken
        | _ => exact carries.taken
      · intro caller found staged there is mine
        rcases getElem?_set_eq_some there with ⟨-, rfl⟩ | ⟨-, old⟩
        · cases advances with
          | staged other open' => exact carries.staged staged is mine
          | aside aside outside outside' =>
              cases (superseded_none outside').symm.trans is
          | _ => cases is
        · exact carries.superseded caller found staged old is mine

/-- Where a call to `install` is that entered with this build, and with what answer. -/
inductive State.Course (state : State Id Mix Sep) (caller : Nat) (build : Sep) : Prop where
  | entering (here : state.calls[caller]? = some (.stage build))
  | refused (here : state.calls[caller]? = some (.installReturned .shuttingDown))
      (stopped : state.inner.shutdown = true)
  | waiting {channel : Nat} {call : Call Id Sep} (here : state.calls[caller]? = some call)
      (is : call.channel = some channel) (carries : state.Carries channel build)
  | returned {channel : Nat} {reply : Reply Sep}
      (here : state.calls[caller]? = some (.installReturned reply))
      (answer : state.inner.channels[channel]? = some (some reply))
      (carries : state.Carries channel build)

omit [DecidableEq Id] in
theorem State.Carries.staging {before : State Id Mix Sep} {caller : Nat} {build : Sep}
    (placed : before.Placed) :
    State.Carries ⟨{ before.inner with
        incoming := some ⟨build, before.inner.channels.length⟩
        channels := before.inner.channels ++ [none] },
      before.calls.set caller (.supersede before.inner.channels.length before.inner.incoming)⟩
      before.inner.channels.length build := by
  -- The channel is new: nobody else can hold it.
  have fresh : ∀ {staged : Staged Sep}, before.inner.channels[staged.reply]? = some none →
      staged.reply ≠ before.inner.channels.length := fun open' =>
    Nat.ne_of_lt (List.getElem?_eq_some_iff.mp open').1
  refine ⟨by simp, ?_, fun staged held mine => ?_, fun other call staged there is mine => ?_, ?_⟩
  · rintro staged ⟨⟩ -
    rfl
  · exact absurd mine (fresh (placed.taken_open held))
  · rcases getElem?_set_eq_some there with ⟨-, rfl⟩ | ⟨-, old⟩
    · exact absurd mine (fresh (placed.staged_open is))
    · exact absurd mine (fresh (placed.superseded_open old is))
  · intro model answer
    simp at answer

theorem State.Course.move {before after : State Id Mix Sep} {event : Event Id Mix Sep}
    {caller : Nat} {build : Sep} (course : before.Course caller build) (placed : before.Placed)
    (told : Told before) (move : Move before event after) : after.Course caller build := by
  have halted := fun stopped => (halted_move stopped move).shutdown
  -- A step of another thread leaves the call where it is.
  have stays : (∀ call, before.calls[caller]? = some call → after.calls[caller]? = some call) →
      after.Course caller build := by
    intro kept
    cases course with
    | entering here => exact .entering (kept _ here)
    | refused here stopped => exact .refused (kept _ here) (halted stopped)
    | waiting here is carries => exact .waiting (kept _ here) is (carries.move placed told move)
    | returned here answer carries =>
        exact .returned (kept _ here) (answer_kept placed told move answer)
          (carries.move placed told move)
  cases move with
  | submit done => exact stays fun _ here => here
  | worker done => exact stays fun _ here => here
  | call method =>
      exact stays fun call here =>
        List.getElem?_append_left (List.getElem?_eq_some_iff.mp here).1 ▸ here
  | @advance mover late call next inner here done =>
      by_cases own : mover = caller
      · subst own
        have inside := (List.getElem?_eq_some_iff.mp here).1
        have set : (before.calls.set mover next)[mover]? = some next :=
          List.getElem?_set_self inside
        have carried : ∀ {channel : Nat}, before.Carries channel build →
            State.Carries ⟨inner, before.calls.set mover next⟩ channel build := fun carries =>
          carries.move placed told (.advance here done)
        cases course with
        | entering entering =>
            cases here.symm.trans entering
            cases Call.advances_of_advance done with
            | aside aside outside outside' other entered => exact absurd rfl (entered build)
            | staged _ open' => exact .waiting set rfl (.staging placed)
            | refused _ stopped => exact .refused set stopped
        | refused there stopped =>
            cases here.symm.trans there
            cases done
        | returned there answer carries =>
            cases here.symm.trans there
            cases done
        | waiting there is carries =>
            cases here.symm.trans there
            cases Call.advances_of_advance done with
            | aside aside outside => cases outside.symm.trans is
            | superseded channel staged => exact .waiting set is (carried carries)
            | alone channel => exact .waiting set is (carried carries)
            | notified channel => exact .waiting set is (carried carries)
            | received channel reply answer =>
                cases is
                exact .returned set answer (carried carries)
            | _ => cases is
      · exact stays fun call there => by rwa [List.getElem?_set_ne own]

def State.Replaced (state : State Id Mix Sep) (channel : Nat) : Prop :=
  (∃ caller, state.At channel (.superseded caller)) ∨
    state.inner.channels[channel]? = some (some .superseded)

theorem State.Replaced.move {before after : State Id Mix Sep} {event : Event Id Mix Sep}
    {channel : Nat} (replaced : before.Replaced channel) (placed : before.Placed)
    (told : Told before) (move : Move before event after) : after.Replaced channel := by
  rcases replaced with ⟨caller, call, staged, here, is, rfl⟩ | answer
  · have open' := placed.superseded_open here is
    cases move with
    | submit done => exact .inl ⟨caller, call, staged, here, is, rfl⟩
    | worker done => exact .inl ⟨caller, call, staged, here, is, rfl⟩
    | call method =>
        exact .inl ⟨caller, call, staged,
          List.getElem?_append_left (List.getElem?_eq_some_iff.mp here).1 ▸ here, is, rfl⟩
    | @advance mover late moving next inner there done =>
        by_cases own : mover = caller
        · subst own
          cases there.symm.trans here
          obtain ⟨_, _, same, answer⟩ := supersede_answers is open' late
          cases done.symm.trans same
          exact .inr answer
        · exact .inl ⟨caller, call, staged, by rwa [List.getElem?_set_ne own], is, rfl⟩
  · exact .inr (answer_kept placed told move answer)

def State.Refused (state : State Id Mix Sep) (channel : Nat) : Prop :=
  state.inner.shutdown = true ∧
    (state.Replaced channel ∨ state.At channel .staged ∨
      state.inner.channels[channel]? = some (some .shuttingDown))

theorem State.Refused.move {before after : State Id Mix Sep} {event : Event Id Mix Sep}
    {channel : Nat} (refused : before.Refused channel) (placed : before.Placed)
    (told : Told before) (move : Move before event after) : after.Refused channel := by
  obtain ⟨stopped, replaced | ⟨staged, staging, rfl⟩ | answer⟩ := refused
  · exact ⟨(halted_move stopped move).shutdown, .inl (replaced.move placed told move)⟩
  · refine ⟨(halted_move stopped move).shutdown, ?_⟩
    have serve : ∀ {action : Action Id Mix Sep} {inner : Inner Id Mix Sep},
        Inner.Serves before.inner action inner → inner.incoming = some staged := by
      intro action inner serves
      cases serves with
      | aside aside => exact aside.incoming.trans staging
      -- The worker looks at the flag before the slot.
      | taken _ _ open' _ => cases stopped.symm.trans open'
      | _ => exact staging
    cases move with
    | submit done => exact .inr (.inl ⟨staged, serve (Inner.serves_of_step rfl done), rfl⟩)
    | worker done =>
        exact .inr (.inl ⟨staged, serve (Inner.serves_of_step (WorkerStep.own _) done), rfl⟩)
    | call method => exact .inr (.inl ⟨staged, staging, rfl⟩)
    | @advance mover late call next inner here done =>
        cases Call.advances_of_advance done with
        | aside aside => exact .inr (.inl ⟨staged, aside.incoming.trans staging, rfl⟩)
        | notified channel =>
            exact .inr (.inl ⟨staged, before.inner.notify_aside.incoming.trans staging, rfl⟩)
        | staged _ open' => cases stopped.symm.trans open'
        | letGo other held =>
            cases staging.symm.trans held
            exact .inr (.inr (Inner.send_answers _ (placed.staged_open staging)))
        | nobodyLetGo none => cases none.symm.trans staging
        | _ => exact .inr (.inl ⟨staged, staging, rfl⟩)
  · exact ⟨(halted_move stopped move).shutdown, .inr (.inr (answer_kept placed told move answer))⟩

def Proceeds (_ : State Id Mix Sep) : Event Id Mix Sep → Prop
  | .submit _ | .call _ => False
  | .advance _ _ | .worker _ => True

def Call.left : Call Id Sep → Nat
  | .stage _ => 8
  | .shut => 7
  | .letGo => 6
  | .flagRunning => 5
  | .supersede _ _ | .stopNotify => 4
  | .installNotify _ => 3
  | .cancelPending _ | .takeHandle => 2
  | .cancelRunning _ | .receive _ | .polling => 1
  | .cancelReturned _ _ | .installReturned _ | .stopReturned _ => 0

def Worker.left : Worker Id Mix Sep → Nat
  | .building _ => 3
  | .answering _ | .separating _ => 2
  | .looking => 1
  | .parked | .gone => 0

def Inner.left (inner : Inner Id Mix Sep) : Nat :=
  inner.pending.length * 2 + inner.incoming.elim 0 (fun _ => 3) + inner.worker.left

def State.left (state : State Id Mix Sep) : Nat :=
  state.inner.left + (state.calls.map Call.left).sum

omit [DecidableEq Id] in
theorem Inner.notify_left (inner : Inner Id Mix Sep) : inner.notify.left ≤ inner.left + 1 := by
  rcases inner.notify_frame with same | ⟨parked, same⟩ <;> rw [same]
  · omega
  · simp only [left, Worker.left]
    omega

theorem Inner.left_lt {inner after : Inner Id Mix Sep} {step : WorkerStep}
    (done : inner.step step.action = some after) : after.left < inner.left := by
  cases step with
  | next =>
      cases steps_of_step done with
      | left looking stopped =>
          simp only [left, looking, Worker.left]
          omega
      | takenModel staged looking open' staging =>
          simp only [left, looking, staging, Worker.left, Option.elim_some, Option.elim_none]
          omega
      | takenJob work rest looking open' none waiting =>
          have taken : (inner.taking work rest).left = rest.length * 2 + 2 := by
            simp [left, taking, none, Worker.left]
          have before : inner.left = (rest.length + 1) * 2 + 1 := by
            simp [left, none, waiting, looking, Worker.left]
          omega
      | parked looking open' none =>
          simp only [left, looking, Worker.left]
          omega
  | built outcome =>
      cases steps_of_step done with
      | built staged outcome building =>
          cases outcome <;> simp only [left, built, send, building, Worker.left] <;> omega
  | answered =>
      cases steps_of_step done with
      | answered staged answering =>
          simp only [left, answered, send, answering, Worker.left]
          omega
  | finished =>
      cases steps_of_step done with
      | finished claimed separating =>
          simp only [left, finished, separating, Worker.left]
          omega

theorem Call.left_lt {late : Bool} {inner after : Inner Id Mix Sep} {call next : Call Id Sep}
    (done : call.advance late inner = some (after, next)) :
    after.left + next.left < inner.left + call.left := by
  have notified := inner.notify_left
  cases call with
  | cancelPending id =>
      have kept := List.length_filter_le (fun w => decide (w.job ≠ id)) inner.pending
      have shorter : (inner.cancelPending id).2.left ≤ inner.left := by
        simp only [Inner.left, Inner.cancelPending]
        omega
      have passed : next.left ≤ 1 := by
        cases done
        split <;> simp [left]
      have same : after = (inner.cancelPending id).2 := by
        cases done
        rfl
      subst same
      exact Nat.lt_succ_of_le (Nat.add_le_add shorter passed)
  | cancelRunning id =>
      simp only [advance, Option.some.injEq, Prod.mk.injEq] at done
      obtain ⟨rfl, rfl⟩ := done
      rw [(inner.cancelRunning_frame id).1]
      simp only [Inner.left, left]
      omega
  | stage build =>
      simp only [advance, Inner.stage] at done
      split at done
      · rename_i staged
        split at staged <;> cases staged
        cases done
        simp only [Inner.left, left, Option.elim_some]
        omega
      · cases done
        simp only [left]
        omega
  | supersede channel superseded =>
      cases superseded <;> cases done <;> simp only [left, Inner.left, Inner.send] <;> omega
  | receive channel =>
      simp only [advance] at done
      split at done <;> cases done
      simp only [left]
      omega
  | letGo =>
      cases done
      rw [inner.letGo_frame]
      simp only [left, Inner.left, Option.elim_none]
      omega
  | flagRunning =>
      cases done
      rw [(inner.flagRunning_frame).1]
      simp only [Inner.left, left]
      omega
  | installNotify channel | stopNotify =>
      cases done
      simp only [left]
      omega
  | shut =>
      cases done
      simp only [Inner.left, Inner.shut, left]
      omega
  | takeHandle =>
      simp only [advance] at done
      split at done <;> cases done <;> simp only [Inner.left, left] <;> omega
  | polling =>
      simp only [advance] at done
      split at done
      · cases done
        simp only [left]
        omega
      · split at done <;> cases done
        simp only [left]
        omega
  | cancelReturned _ _ | installReturned _ | stopReturned _ => cases done

theorem State.left_lt {before after : State Id Mix Sep} {event : Event Id Mix Sep}
    (proceeds : Proceeds before event) (move : Move before event after) :
    after.left < before.left := by
  cases move with
  | submit done => cases proceeds
  | call method => cases proceeds
  | worker done => exact Nat.add_lt_add_right (Inner.left_lt done) _
  | @advance caller late call next inner here done =>
      have less := Call.left_lt done
      have moved := sum_map_set_add Call.left next here
      simp only [left]
      omega

def State.Moves (state : State Id Mix Sep) : Prop :=
  ∃ event next, Proceeds state event ∧ state.step event = some next

theorem moves_of_call {state : State Id Mix Sep} {caller : Nat} {call : Call Id Sep}
    (here : state.calls[caller]? = some call)
    (done : ∃ after next, call.advance false state.inner = some (after, next)) : state.Moves := by
  obtain ⟨after, next, done⟩ := done
  exact ⟨.advance caller false, ⟨after, state.calls.set caller next⟩, trivial,
    by simp [State.step, here, done]⟩

theorem moves_of_busy {state : State Id Mix Sep} (busy : state.inner.worker.idle = false) :
    state.Moves := by
  have acts : ∃ (step : WorkerStep) (after : Inner Id Mix Sep),
      state.inner.step step.action = some after := by
    cases at' : state.inner.worker with
    | looking => exact ⟨.next, state.inner.next, by simp [WorkerStep.action, Inner.step, at']⟩
    | building staged =>
        exact ⟨.built .failed, state.inner.built staged .failed,
          by simp [WorkerStep.action, Inner.step, at']⟩
    | answering staged =>
        exact ⟨.answered, state.inner.answered staged,
          by simp [WorkerStep.action, Inner.step, at']⟩
    | separating claimed =>
        exact ⟨.finished, state.inner.finished claimed,
          by simp [WorkerStep.action, Inner.step, at']⟩
    | parked | gone => simp [at', Worker.idle] at busy
  obtain ⟨step, after, done⟩ := acts
  exact ⟨.worker step, { state with inner := after }, trivial, by simp [State.step, done]⟩

/-- Whoever waits for an answer, there is somebody to go on: a worker at work, or by
`Awaited` a call that has the answer. -/
theorem moves_of_waiting {state : State Id Mix Sep} (awaited : state.Awaited) {caller channel : Nat}
    (here : state.calls[caller]? = some (.receive channel))
    (inside : channel < state.inner.channels.length) : state.Moves := by
  cases answer : state.inner.channels[channel]? with
  | none => exact absurd (List.getElem?_eq_none_iff.mp answer) (by omega)
  | some given =>
      cases given with
      | some reply =>
          exact moves_of_call here
            ⟨state.inner, .installReturned reply, by simp only [Call.advance, answer]⟩
      | none =>
          cases idle : state.inner.worker.idle with
          | false => exact moves_of_busy idle
          | true =>
              obtain ⟨other, call, there, answers | answers⟩ := awaited caller channel here answer
                idle
              · obtain ⟨after, next, done, -⟩ := answers false
                exact moves_of_call there ⟨after, next, done⟩
              · obtain ⟨after, next, done, -⟩ := answers false
                exact moves_of_call there ⟨after, next, done⟩

def State.Returned (state : State Id Mix Sep) (caller : Nat) : Prop :=
  ∃ reply, state.calls[caller]? = some (.installReturned reply)

section runs

variable {model : Sep} {maxDepth : Nat} {state later : State Id Mix Sep} {caller channel : Nat}
  {build : Sep}

theorem course_of_reaches (reached : (system model maxDepth).Reachable state)
    (entering : state.calls[caller]? = some (.stage build))
    (run : (system model maxDepth).Reaches System.Any state later) : later.Course caller build :=
  run.invariant (P := fun state => state.Course caller build) (.entering entering)
    fun _ _ _ before course _ done =>
      course.move (placed_of_reaches (reached.trans before)) (told_of_reaches (reached.trans before))
        (move_of_step done)

/-- A call to `install` returns, whatever order those under way come in. -/
theorem returns_inevitably (reached : (system model maxDepth).Reachable state)
    (course : state.Course caller build) :
    (system model maxDepth).Inevitably Proceeds (fun state => state.Returned caller) state := by
  refine System.inevitably_of_measure
    (Q := fun state => (system model maxDepth).Reachable state ∧ state.Course caller build)
    State.left (fun before event after known _ done => ?_)
    (fun before event after _ proceeds done => State.left_lt proceeds (move_of_step done))
    (fun before known waits => ?_) ⟨reached, course⟩
  · obtain ⟨reached, course⟩ := known
    exact ⟨.tail reached trivial done, course.move (placed_of_reaches reached)
      (told_of_reaches reached) (move_of_step done)⟩
  · obtain ⟨reached, course⟩ := known
    cases course with
    | entering here =>
        refine moves_of_call here ?_
        cases staged : before.inner.stage build with
        | none => exact ⟨_, _, by simp only [Call.advance, staged]; rfl⟩
        | some triple => exact ⟨_, _, by simp only [Call.advance, staged]; rfl⟩
    | refused here stopped => exact absurd ⟨_, here⟩ waits
    | returned here answer carries => exact absurd ⟨_, here⟩ waits
    | @waiting channel call here is carries =>
        cases call with
        | supersede channel superseded =>
            refine moves_of_call here ?_
            cases superseded with
            | some staged => exact ⟨_, _, rfl⟩
            | none => exact ⟨_, _, rfl⟩
        | installNotify channel => exact moves_of_call here ⟨_, _, rfl⟩
        | receive channel =>
            cases is
            exact moves_of_waiting (awaited (placed_of_reaches reached) (keyed_of_reaches reached)
              (attended_of_reaches reached)) here carries.inside
        | _ => cases is

end runs

structure Handshake (model : Sep) (maxDepth : Nat) (state : State Id Mix Sep) : Prop where
  placed : ∀ channel < state.inner.channels.length, ∃! place, state.At channel place
  described : state.inner.Described
  awaited : state.Awaited
  answers : ∀ event after, state.step event = some after → ∀ (channel : Nat) reply,
    after.inner.channels[channel]? = some (some reply) ↔
      state.inner.channels[channel]? = some (some reply) ∨ Cause state channel event reply
  settles : ∀ event after, state.step event = some after → ∀ channel reply,
    Cause state channel event reply → Settles state.inner after.inner reply
  course : ∀ (caller : Nat) build, state.calls[caller]? = some (.stage build) →
    ∀ later, (system model maxDepth).Reaches System.Any state later → later.Course caller build ∧
      (system model maxDepth).Inevitably Proceeds (fun state => state.Returned caller) later
  replaces : ∀ (caller : Nat) late build staged after,
    state.calls[caller]? = some (.stage build) → state.inner.incoming = some staged →
      state.inner.shutdown = false → state.step (.advance caller late) = some after →
        after.Replaced staged.reply
  replaced : ∀ channel, state.Replaced channel →
    ∀ later, (system model maxDepth).Reaches System.Any state later → later.Replaced channel
  refused : ∀ channel, state.Refused channel →
    ∀ later, (system model maxDepth).Reaches System.Any state later → later.Refused channel

theorem install_handshake (model : Sep) (maxDepth : Nat) (state : State Id Mix Sep)
    (reached : (system model maxDepth).Reachable state) : Handshake model maxDepth state where
  placed := fun _ inside => (placed_of_reaches reached).exactly_one inside
  described := described_of_reaches reached
  awaited := awaited (placed_of_reaches reached) (keyed_of_reaches reached)
    (attended_of_reaches reached)
  answers := fun _ _ done => answers_iff (placed_of_reaches reached) (told_of_reaches reached)
    (move_of_step done)
  settles := fun _ _ done _ _ cause => cause.settles (described_of_reaches reached)
    (move_of_step done)
  course := fun _ _ entering _ run =>
    have course := course_of_reaches reached entering run
    ⟨course, returns_inevitably (reached.trans run) course⟩
  replaces := by
    intro caller late build staged after here staging open' done
    refine .inl ⟨caller, .supersede state.inner.channels.length (some staged), staged, ?_, rfl, rfl⟩
    have inside := (List.getElem?_eq_some_iff.mp here).1
    simp only [State.step, here, Call.advance, Inner.stage, open', staging] at done
    cases done
    exact List.getElem?_set_self inside
  replaced := fun channel replaced _ run =>
    run.invariant (P := fun state => state.Replaced channel) replaced
      fun _ _ _ before replaced _ done => replaced.move (placed_of_reaches (reached.trans before))
        (told_of_reaches (reached.trans before)) (move_of_step done)
  refused := fun channel refused _ run =>
    run.invariant (P := fun state => state.Refused channel) refused
      fun _ _ _ before refused _ done => refused.move (placed_of_reaches (reached.trans before))
        (told_of_reaches (reached.trans before)) (move_of_step done)

/-- A switch on a fresh queue is heard of. -/
theorem install_of_hybrid_is_heard_of : ∃ state : State String Unit String,
    state.calls[0]? = some (.stage "hybrid") ∧ Handshake "htdemucs" 4 state := by
  have entered : ∃ state : State String Unit String,
      (system "htdemucs" 4).Reachable state ∧ state.calls[0]? = some (.stage "hybrid") :=
    System.exists_of_replay [.call (.install "hybrid")] (by decide)
  obtain ⟨state, reached, here⟩ := entered
  exact ⟨state, here, install_handshake "htdemucs" 4 state reached⟩

/-- An install replaced before it was taken still waits when the worker is done with the one
that replaced it, and one that was taken is installed although the queue is shutting down. -/
theorem parked_worker_leaves_install_waiting :
    (∃ state : State String Unit String, (system "htdemucs" 4).Reachable state ∧
      state.inner.worker.idle = true ∧ state.calls[0]? = some (.receive 0) ∧
        state.inner.channels[0]? = some none) ∧
      ∃ state : State String Unit String, (system "htdemucs" 4).Reachable state ∧
        state.inner.shutdown = true ∧ state.calls[0]? = some (.receive 0) ∧
          state.inner.channels[0]? = some none ∧
            ∃ later, (system "htdemucs" 4).Reaches System.Any state later ∧
              later.inner.channels[0]? = some (some (.loaded "hybrid")) := by
  have waits : ∃ state : State String Unit String, (system "htdemucs" 4).Reachable state ∧
      state.inner.worker.idle = true ∧ state.calls[0]? = some (.receive 0) ∧
        state.inner.channels[0]? = some none :=
    System.exists_of_replay [.worker .next, .call (.install "hybrid"), .advance 0 false,
      .call (.install "mdx"), .advance 1 false, .advance 0 false, .advance 0 false,
      .worker .next, .worker (.built .failed), .worker .next] (by decide)
  have stopped : ∃ state : State String Unit String, (system "htdemucs" 4).Reachable state ∧
      state.inner.shutdown = true ∧ state.calls[0]? = some (.receive 0) ∧
        state.inner.channels[0]? = some none ∧
          ((system "htdemucs" 4).replay System.Any state
              [.worker (.built .loaded), .worker .answered]).any (fun later =>
            decide (later.inner.channels[0]? = some (some (.loaded "hybrid")))) = true :=
    System.exists_of_replay [.call (.install "hybrid"), .advance 0 false, .advance 0 false,
      .advance 0 false, .worker .next, .call .stop, .advance 1 false] (by decide)
  obtain ⟨state, reached, stopped, receives, open', rest⟩ := stopped
  exact ⟨waits, state, reached, stopped, receives, open', System.exists_of_replay _ rest⟩

end Stemd.Queue
