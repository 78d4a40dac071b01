import Stemd.Queue.Stop

/-! The handshake between those who install a model, the worker and a stop.

An install is known by the channel it is answered on. From the moment it is staged its
channel is in one place: in the slot, with the worker, with the install that took the
slot from it, or answered. -/

set_option autoImplicit false

namespace Stemd.Queue

open Stemd.Core
open Stemd.Semantics

variable {Id Mix Sep : Type}

def Worker.install : Worker Id Mix Sep → Option (Staged Sep)
  | .building staged | .answering staged => some staged
  | _ => none

def Worker.idle : Worker Id Mix Sep → Bool
  | .parked | .gone => true
  | _ => false

def Call.superseded : Call Id Sep → Option (Staged Sep)
  | .supersede _ staged => staged
  | _ => none

def Call.channel : Call Id Sep → Option Nat
  | .supersede channel _ | .installNotify channel | .receive channel => some channel
  | _ => none

theorem superseded_none {call : Call Id Sep} (outside : call.channel = none) :
    call.superseded = none := by
  cases call <;> first | rfl | cases outside

def Call.notifies : Call Id Sep → Bool
  | .supersede _ _ | .installNotify _ => true
  | _ => false

structure Inner.Aside (inner after : Inner Id Mix Sep) : Prop where
  channels : after.channels = inner.channels
  incoming : after.incoming = inner.incoming
  install : after.worker.install = inner.worker.install
  info : after.info = inner.info
  separator : after.separator = inner.separator
  shutdown : after.shutdown = inner.shutdown
  parked : after.worker = .parked → inner.worker = .parked ∨ inner.incoming = none
  gone : after.worker = .gone → inner.worker = .gone ∨ inner.shutdown = true
  answering : ∀ staged, after.worker = .answering staged ↔ inner.worker = .answering staged

namespace Inner

theorem Aside.refl (inner : Inner Id Mix Sep) : Aside inner inner :=
  ⟨rfl, rfl, rfl, rfl, rfl, rfl, .inl, .inl, fun _ => Iff.rfl⟩

theorem notify_aside (inner : Inner Id Mix Sep) : Aside inner inner.notify := by
  rcases inner.notify_frame with same | ⟨parked, same⟩ <;> rw [same]
  · exact .refl inner
  · refine ⟨rfl, rfl, by rw [parked]; rfl, rfl, rfl, rfl, ?_, ?_, fun staged => ?_⟩
    · rintro ⟨⟩
    · rintro ⟨⟩
    · simp [parked]

theorem notify_not_parked (inner : Inner Id Mix Sep) : inner.notify.worker ≠ .parked := by
  unfold notify
  split
  · simp
  · rename_i awake
    exact awake

/-- What the worker, or a submission, does to the handshake. -/
inductive Serves [DecidableEq Id] (inner : Inner Id Mix Sep) :
    Action Id Mix Sep → Inner Id Mix Sep → Prop where
  | aside {action : Action Id Mix Sep} {after : Inner Id Mix Sep} (aside : Aside inner after) :
      Serves inner action after
  | taken (staged : Staged Sep) (looking : inner.worker = .looking)
      (open' : inner.shutdown = false) (staging : inner.incoming = some staged) :
      Serves inner .next { inner with
        incoming := none
        worker := .building staged
        history := { inner.history with models := inner.history.models ++ [staged.build] } }
  | loaded (staged : Staged Sep) (building : inner.worker = .building staged) :
      Serves inner (.built .loaded)
        { inner with info := staged.build, worker := .answering staged }
  | failed (staged : Staged Sep) (building : inner.worker = .building staged) :
      Serves inner (.built .failed) (send { inner with worker := .looking } staged.reply .failed)
  | panicked (staged : Staged Sep) (building : inner.worker = .building staged) :
      Serves inner (.built .panicked)
        (send { inner with worker := .looking } staged.reply .panicked)
  | answered (staged : Staged Sep) (answering : inner.worker = .answering staged) :
      Serves inner .answered (inner.answered staged)

theorem serves_of_step [DecidableEq Id] {inner after : Inner Id Mix Sep}
    {action : Action Id Mix Sep} (own : action.isCallers = false)
    (done : inner.step action = some after) : Serves inner action after := by
  cases steps_of_step done with
  | accepted work room =>
      have same := notify_aside { inner with
        pending := inner.pending ++ [work]
        history := { inner.history with accepted := inner.history.accepted ++ [work.job] } }
      exact .aside ⟨same.channels, same.incoming, same.install, same.info, same.separator,
        same.shutdown, same.parked, same.gone, same.answering⟩
  | refused work => exact .aside (.refl inner)
  | left looking stopped =>
      refine .aside ⟨rfl, rfl, by rw [looking]; rfl, rfl, rfl, rfl, ?_, fun _ => .inr stopped,
        fun staged => ?_⟩
      · rintro ⟨⟩
      · simp [looking]
  | takenModel staged looking open' staging => exact .taken staged looking open' staging
  | takenJob work rest looking open' none waiting =>
      refine .aside ⟨rfl, rfl, by rw [looking]; rfl, rfl, rfl, rfl, ?_, ?_, fun staged => ?_⟩
      · rintro ⟨⟩
      · rintro ⟨⟩
      · simp [looking, taking]
  | parked looking open' none =>
      refine .aside ⟨rfl, rfl, by rw [looking]; rfl, rfl, rfl, rfl, fun _ => .inr none, ?_,
        fun staged => ?_⟩
      · rintro ⟨⟩
      · simp [looking]
  | built staged outcome building =>
      cases outcome with
      | loaded => exact .loaded staged building
      | failed => exact .failed staged building
      | panicked => exact .panicked staged building
  | answered staged answering => exact .answered staged answering
  | finished claimed separating =>
      refine .aside ⟨rfl, rfl, by rw [separating]; rfl, rfl, rfl, rfl, ?_, ?_, fun staged => ?_⟩
      · rintro ⟨⟩
      · rintro ⟨⟩
      · simp [finished, separating]
  | _ => cases own

end Inner

/-- What a step of a call does to the handshake. -/
inductive Call.Advances [DecidableEq Id] (inner : Inner Id Mix Sep) :
    Call Id Sep → Inner Id Mix Sep → Call Id Sep → Prop where
  | aside {call next : Call Id Sep} {after : Inner Id Mix Sep} (aside : inner.Aside after)
      (before : call.channel = none) (later : next.channel = none) (other : call ≠ .letGo)
      (entered : ∀ build, call ≠ .stage build) : Advances inner call after next
  | staged (build : Sep) (open' : inner.shutdown = false) :
      Advances inner (.stage build) { inner with
          incoming := some ⟨build, inner.channels.length⟩
          channels := inner.channels ++ [none] }
        (.supersede inner.channels.length inner.incoming)
  | refused (build : Sep) (stopped : inner.shutdown = true) :
      Advances inner (.stage build) inner (.installReturned .shuttingDown)
  | superseded (channel : Nat) (staged : Staged Sep) :
      Advances inner (.supersede channel (some staged)) (inner.send staged.reply .superseded)
        (.installNotify channel)
  | alone (channel : Nat) :
      Advances inner (.supersede channel none) inner (.installNotify channel)
  | notified (channel : Nat) :
      Advances inner (.installNotify channel) inner.notify (.receive channel)
  | received (channel : Nat) (reply : Reply Sep)
      (answer : inner.channels[channel]? = some (some reply)) :
      Advances inner (.receive channel) inner (.installReturned reply)
  | shut : Advances inner .shut inner.shut .letGo
  | letGo (staged : Staged Sep) (staging : inner.incoming = some staged) :
      Advances inner .letGo (Inner.send { inner with incoming := none } staged.reply .shuttingDown)
        .flagRunning
  | nobodyLetGo (none : inner.incoming = none) : Advances inner .letGo inner .flagRunning

theorem Call.advances_of_advance [DecidableEq Id] {late : Bool} {inner after : Inner Id Mix Sep}
    {call next : Call Id Sep} (done : call.advance late inner = some (after, next)) :
    Call.Advances inner call after next := by
  have flags : ∀ (raised : List Bool), inner.Aside { inner with flags := raised } := fun _ =>
    ⟨rfl, rfl, rfl, rfl, rfl, rfl, .inl, .inl, fun _ => Iff.rfl⟩
  cases call with
  | cancelPending id =>
      cases done
      refine .aside ⟨rfl, rfl, rfl, rfl, rfl, rfl, .inl, .inl, fun _ => Iff.rfl⟩ rfl ?_ (by simp)
        (by simp)
      split <;> rfl
  | cancelRunning id =>
      simp only [advance, Option.some.injEq, Prod.mk.injEq] at done
      obtain ⟨rfl, rfl⟩ := done
      rw [(inner.cancelRunning_frame id).1]
      exact .aside (flags _) rfl rfl (by simp) (by simp)
  | stage build =>
      simp only [advance, Inner.stage] at done
      split at done
      · rename_i channel superseded staging staged
        split at staged <;> cases staged
        rename_i open'
        cases done
        exact .staged build (by simpa using open')
      · rename_i refused
        split at refused <;> cases refused
        rename_i stopped
        cases done
        exact .refused build stopped
  | supersede channel superseded =>
      cases superseded with
      | some staged =>
          cases done
          exact .superseded channel staged
      | none =>
          cases done
          exact .alone channel
  | installNotify channel =>
      cases done
      exact .notified channel
  | receive channel =>
      simp only [advance] at done
      split at done
      · rename_i reply answer
        cases done
        exact .received channel reply answer
      · cases done
  | shut =>
      cases done
      exact .shut
  | letGo =>
      cases done
      unfold Inner.letGo
      split
      · rename_i staged staging
        exact .letGo staged staging
      · rename_i none
        exact .nobodyLetGo none
  | flagRunning =>
      cases done
      rw [(inner.flagRunning_frame).1]
      exact .aside (flags _) rfl rfl (by simp) (by simp)
  | stopNotify =>
      cases done
      exact .aside inner.notify_aside rfl rfl (by simp) (by simp)
  | takeHandle =>
      simp only [advance] at done
      split at done <;> cases done
      · exact .aside ⟨rfl, rfl, rfl, rfl, rfl, rfl, .inl, .inl, fun _ => Iff.rfl⟩ rfl rfl (by simp)
          (by simp)
      · exact .aside (.refl inner) rfl rfl (by simp) (by simp)
  | polling =>
      simp only [advance] at done
      split at done
      · cases done
        exact .aside (.refl inner) rfl rfl (by simp) (by simp)
      · split at done <;> cases done
        exact .aside (.refl inner) rfl rfl (by simp) (by simp)
  | cancelReturned _ _ => cases done
  | installReturned _ => cases done
  | stopReturned _ => cases done

def heldFor (channel : Nat) (staged : Option (Staged Sep)) : Nat :=
  if staged.map (·.reply) = some channel then 1 else 0

@[simp] theorem heldFor_none (channel : Nat) : heldFor channel (none : Option (Staged Sep)) = 0 :=
  rfl

@[simp] theorem heldFor_some (channel : Nat) (staged : Staged Sep) :
    heldFor channel (some staged) = if staged.reply = channel then 1 else 0 := by
  simp [heldFor]

def Inner.answeredOn (inner : Inner Id Mix Sep) (channel : Nat) : Nat :=
  if (inner.channels[channel]?).join.isSome then 1 else 0

def State.places (state : State Id Mix Sep) (channel : Nat) : Nat :=
  state.inner.answeredOn channel + heldFor channel state.inner.incoming +
    heldFor channel state.inner.worker.install +
      state.calls.countP fun call => call.superseded.map (·.reply) = some channel

/-- Every channel handed out is in one place, and no other is anywhere. -/
def State.Placed (state : State Id Mix Sep) : Prop :=
  ∀ channel, state.places channel = if channel < state.inner.channels.length then 1 else 0

namespace Inner

theorem answeredOn_send {inner : Inner Id Mix Sep} {channel : Nat}
    (open' : inner.channels[channel]? = some none) (reply : Reply Sep) (other : Nat) :
    (inner.send channel reply).answeredOn other =
      inner.answeredOn other + if channel = other then 1 else 0 := by
  have inside := (List.getElem?_eq_some_iff.mp open').1
  by_cases same : channel = other
  · subst same
    simp [answeredOn, send, List.getElem?_set_self inside, open']
  · simp [answeredOn, send, List.getElem?_set_ne same, same]

theorem answeredOn_append (inner : Inner Id Mix Sep) (channel : Nat) :
    (if ((inner.channels ++ [none])[channel]?).join.isSome then 1 else 0) =
      inner.answeredOn channel := by
  unfold answeredOn
  by_cases inside : channel < inner.channels.length
  · rw [List.getElem?_append_left inside]
  · rw [List.getElem?_append_right (Nat.not_lt.mp inside),
      List.getElem?_eq_none (Nat.not_lt.mp inside)]
    cases difference : channel - inner.channels.length <;> simp

end Inner

theorem countP_superseded_set {calls : List (Call Id Sep)} {caller : Nat} {call : Call Id Sep}
    (next : Call Id Sep) (here : calls[caller]? = some call) (channel : Nat) :
    (calls.set caller next).countP (fun c => c.superseded.map (·.reply) = some channel) +
        heldFor channel call.superseded =
      calls.countP (fun c => c.superseded.map (·.reply) = some channel) +
        heldFor channel next.superseded := by
  simpa [heldFor] using
    countP_set_add (fun c : Call Id Sep => c.superseded.map (·.reply) = some channel) next here

theorem State.Placed.unanswered {state : State Id Mix Sep} (placed : state.Placed) {channel : Nat}
    (elsewhere : 1 ≤ heldFor channel state.inner.incoming +
      heldFor channel state.inner.worker.install +
        state.calls.countP fun call => call.superseded.map (·.reply) = some channel) :
    state.inner.channels[channel]? = some none := by
  have once := placed channel
  simp only [State.places] at once
  split at once
  · rename_i inside
    have none' : state.inner.answeredOn channel = 0 := by omega
    simp only [Inner.answeredOn] at none'
    split at none'
    · cases none'
    · rename_i unanswered
      rw [List.getElem?_eq_getElem inside] at unanswered ⊢
      simpa using unanswered
  · omega

variable [DecidableEq Id]

omit [DecidableEq Id] in
theorem placed_aside {before : State Id Mix Sep} {inner : Inner Id Mix Sep}
    {calls : List (Call Id Sep)} (placed : before.Placed) (aside : before.inner.Aside inner)
    (counted : ∀ channel, calls.countP (fun c => c.superseded.map (·.reply) = some channel) =
      before.calls.countP fun c => c.superseded.map (·.reply) = some channel) :
    State.Placed ⟨inner, calls⟩ := by
  intro channel
  have once := placed channel
  simp only [State.places, Inner.answeredOn, aside.channels, aside.incoming, aside.install,
    counted] at once ⊢
  exact once

omit [DecidableEq Id] in
/-- Answering an install moves its channel from wherever it was. -/
theorem placed_send {before : State Id Mix Sep} {inner : Inner Id Mix Sep}
    {calls : List (Call Id Sep)} {channel : Nat} (reply : Reply Sep) (placed : before.Placed)
    (channels : inner.channels = before.inner.channels)
    (open' : before.inner.channels[channel]? = some none)
    (left : ∀ other, heldFor other inner.incoming + heldFor other inner.worker.install +
        calls.countP (fun c => c.superseded.map (·.reply) = some other) +
          (if channel = other then 1 else 0) =
      heldFor other before.inner.incoming + heldFor other before.inner.worker.install +
        before.calls.countP fun c => c.superseded.map (·.reply) = some other) :
    State.Placed ⟨inner.send channel reply, calls⟩ := by
  intro other
  have once := placed other
  have moved := left other
  have answered := Inner.answeredOn_send (channels ▸ open') reply other
  have same : inner.answeredOn other = before.inner.answeredOn other := by
    simp only [Inner.answeredOn, channels]
  have length : (inner.send channel reply).channels.length = before.inner.channels.length := by
    simp [Inner.send, channels]
  simp only [State.places, length] at once ⊢
  rw [answered, same, ← once]
  change _ + heldFor other inner.incoming + heldFor other inner.worker.install + _ = _
  omega

theorem State.Placed.advance {before : State Id Mix Sep} {caller : Nat} {call next : Call Id Sep}
    {after : Inner Id Mix Sep} (placed : before.Placed)
    (here : before.calls[caller]? = some call)
    (advances : Call.Advances before.inner call after next) :
    State.Placed ⟨after, before.calls.set caller next⟩ := by
  have counted := fun channel => countP_superseded_set next here channel
  cases advances with
  | aside aside outside outside' =>
      refine placed_aside placed aside fun channel => ?_
      simpa [superseded_none outside, superseded_none outside'] using counted channel
  | staged build open' =>
      intro channel
      have once := placed channel
      have moved : _ + heldFor channel none = _ + heldFor channel before.inner.incoming :=
        counted channel
      simp only [heldFor_none] at moved
      simp only [State.places, List.length_append, List.length_singleton] at once ⊢
      rw [Inner.answeredOn, Inner.answeredOn_append, heldFor_some]
      dsimp only
      split at once <;> split <;> split <;> omega
  | superseded channel staged =>
      have mine : 1 ≤ before.calls.countP fun c => c.superseded.map (·.reply) = some staged.reply :=
        List.countP_pos_iff.mpr ⟨_, List.mem_of_getElem? here, by simp [Call.superseded]⟩
      refine placed_send .superseded placed rfl (placed.unanswered (by omega)) fun other => ?_
      have moved : _ + heldFor other (some staged) = _ + heldFor other none := counted other
      simp only [heldFor_none, heldFor_some] at moved
      omega
  | letGo staged staging =>
      refine placed_send .shuttingDown placed rfl (placed.unanswered ?_) fun other => ?_
      · rw [staging]
        simp
        omega
      · have moved : _ + heldFor other none = _ + heldFor other none := counted other
        simp only [heldFor_none] at moved
        simp only [staging, heldFor_none, heldFor_some]
        omega
  | refused build stopped | received channel reply answer | alone channel | nobodyLetGo none =>
      exact placed_aside placed (.refl _) fun channel => by
        simpa [Call.superseded] using counted channel
  | notified channel =>
      exact placed_aside placed before.inner.notify_aside fun channel => by
        simpa [Call.superseded] using counted channel
  | shut =>
      intro channel
      have moved : _ + heldFor channel none = _ + heldFor channel none := counted channel
      simp only [heldFor_none, Nat.add_zero] at moved
      have once := placed channel
      simp only [State.places] at once ⊢
      rw [moved]
      exact once

theorem State.Placed.serve {before : State Id Mix Sep} {action : Action Id Mix Sep}
    {after : Inner Id Mix Sep} (placed : before.Placed)
    (serves : Inner.Serves before.inner action after) :
    State.Placed { before with inner := after } := by
  have answers : ∀ (staged : Staged Sep) (reply : Reply Sep) (inner : Inner Id Mix Sep),
      before.inner.worker.install = some staged → inner.worker.install = none →
        inner.channels = before.inner.channels → inner.incoming = before.inner.incoming →
          State.Placed ⟨inner.send staged.reply reply, before.calls⟩ := by
    intro staged reply inner held free channels incoming
    refine placed_send reply placed channels (placed.unanswered ?_) fun other => ?_
    · rw [held, heldFor_some, if_pos rfl]
      omega
    · rw [held, free, incoming, heldFor_some, heldFor_none]
      omega
  cases serves with
  | aside aside => exact placed_aside placed aside fun _ => rfl
  | taken staged looking open' staging =>
      intro channel
      have once := placed channel
      have free : before.inner.worker.install = none := by
        rw [looking]
        rfl
      simp only [State.places, staging, free, heldFor_none] at once ⊢
      change _ + 0 + heldFor channel (some staged) + _ = _
      rw [← once]
      simp only [Inner.answeredOn]
      omega
  | loaded staged building =>
      have held : before.inner.worker.install = some staged := by
        rw [building]
        rfl
      intro channel
      have once := placed channel
      simp only [State.places, held] at once ⊢
      exact once
  | failed staged building =>
      exact answers staged .failed { before.inner with worker := .looking }
        (by rw [building]; rfl) rfl rfl rfl
  | panicked staged building =>
      exact answers staged .panicked { before.inner with worker := .looking }
        (by rw [building]; rfl) rfl rfl rfl
  | answered staged answering =>
      exact answers staged (.loaded staged.build)
        { before.inner with separator := staged.build, worker := .looking }
        (by rw [answering]; rfl) rfl rfl rfl

omit [DecidableEq Id] in
theorem WorkerStep.own (step : WorkerStep) :
    (step.action : Action Id Mix Sep).isCallers = false := by
  cases step <;> rfl

theorem State.Placed.move {before after : State Id Mix Sep} {event : Event Id Mix Sep}
    (placed : before.Placed) (move : Move before event after) : after.Placed := by
  cases move with
  | submit done => exact placed.serve (Inner.serves_of_step rfl done)
  | worker done => exact placed.serve (Inner.serves_of_step (WorkerStep.own _) done)
  | call method =>
      refine placed_aside placed (.refl _) fun channel => ?_
      have quiet : method.enter.superseded = none := by cases method <;> rfl
      simp [quiet]
  | advance here done => exact placed.advance here (Call.advances_of_advance done)

theorem placed_of_reaches {model : Sep} {maxDepth : Nat}
    {ok : State Id Mix Sep → Event Id Mix Sep → Prop} {state : State Id Mix Sep}
    (run : (system model maxDepth).Reaches ok (.start model maxDepth) state) : state.Placed :=
  run.invariant (fun _ => rfl) fun _ _ _ _ placed _ done => placed.move (move_of_step done)

theorem getElem?_set_eq_some {α : Type} {l : List α} {index place : Nat} {new found : α}
    (there : (l.set index new)[place]? = some found) :
    place = index ∧ found = new ∨ place ≠ index ∧ l[place]? = some found := by
  rw [List.getElem?_set] at there
  split at there
  · rename_i same
    split at there <;> cases there
    exact .inl ⟨same.symm, rfl⟩
  · rename_i different
    exact .inr ⟨Ne.symm different, there⟩

omit [DecidableEq Id] in
theorem getElem?_enter {calls : List (Call Id Sep)} {method : Method Id Sep} {place : Nat}
    {found : Call Id Sep} (there : (calls ++ [method.enter])[place]? = some found) :
    calls[place]? = some found ∨ found = method.enter := by
  rw [List.getElem?_append] at there
  split at there
  · exact .inl there
  · exact .inr (List.mem_singleton.mp (List.mem_of_getElem? there))

/-- Each channel is answered to one caller. -/
structure State.Keyed (state : State Id Mix Sep) : Prop where
  bounded : ∀ (caller : Nat) call channel, state.calls[caller]? = some call →
    call.channel = some channel → channel < state.inner.channels.length
  own : ∀ (caller other : Nat) call call' channel, state.calls[caller]? = some call →
    state.calls[other]? = some call' → call.channel = some channel →
      call'.channel = some channel → caller = other

theorem Call.Advances.channel {inner after : Inner Id Mix Sep} {call next : Call Id Sep}
    (advances : Call.Advances inner call after next) :
    inner.channels.length ≤ after.channels.length ∧
      (next.channel = none ∨ next.channel = call.channel ∨
        next.channel = some inner.channels.length ∧
          after.channels.length = inner.channels.length + 1) := by
  cases advances with
  | aside aside before later => exact ⟨by rw [aside.channels], .inl later⟩
  | staged build open' => exact ⟨by simp, .inr (.inr ⟨rfl, by simp⟩)⟩
  | superseded channel staged => exact ⟨by simp [Inner.send], .inr (.inl rfl)⟩
  | alone channel => exact ⟨Nat.le_refl _, .inr (.inl rfl)⟩
  | notified channel => exact ⟨by rw [inner.notify_aside.channels], .inr (.inl rfl)⟩
  | letGo staged staging => exact ⟨by simp [Inner.send], .inl rfl⟩
  | refused _ _ | received _ _ _ | shut | nobodyLetGo _ => exact ⟨Nat.le_refl _, .inl rfl⟩

theorem Inner.Serves.channels {inner after : Inner Id Mix Sep} {action : Action Id Mix Sep}
    (serves : Inner.Serves inner action after) :
    after.channels.length = inner.channels.length := by
  cases serves with
  | aside aside => rw [aside.channels]
  | failed _ _ | panicked _ _ | answered _ _ => simp [Inner.send, Inner.answered]
  | _ => rfl

theorem State.Keyed.move {before after : State Id Mix Sep} {event : Event Id Mix Sep}
    (keyed : before.Keyed) (move : Move before event after) : after.Keyed := by
  have serve : ∀ {action : Action Id Mix Sep} {inner : Inner Id Mix Sep},
      Inner.Serves before.inner action inner → State.Keyed { before with inner := inner } :=
    fun serves => ⟨fun caller call channel here is => serves.channels.symm ▸
      keyed.bounded caller call channel here is, keyed.own⟩
  cases move with
  | submit done => exact serve (Inner.serves_of_step rfl done)
  | worker done => exact serve (Inner.serves_of_step (WorkerStep.own _) done)
  | call method =>
      have fresh : ∀ {call : Call Id Sep} {channel : Nat}, call = method.enter →
          call.channel ≠ some channel := by
        rintro call channel rfl
        cases method <;> simp [Method.enter, Call.channel]
      refine ⟨fun caller call channel here is => ?_,
        fun caller other call call' channel here there is is' => ?_⟩
      · rcases getElem?_enter here with old | new
        · exact keyed.bounded caller call channel old is
        · exact absurd is (fresh new)
      · rcases getElem?_enter here with old | new
        · rcases getElem?_enter there with old' | new'
          · exact keyed.own caller other call call' channel old old' is is'
          · exact absurd is' (fresh new')
        · exact absurd is (fresh new)
  | @advance mover late moving next inner here done =>
      obtain ⟨grows, kept⟩ := (Call.advances_of_advance done).channel
      -- A call that stays has an older channel than one that is being handed out.
      have older : ∀ {caller : Nat} {call : Call Id Sep} {channel : Nat},
          before.calls[caller]? = some call → call.channel = some channel → caller ≠ mover →
            next.channel ≠ some channel := by
        intro caller call channel there is other mine
        rcases kept with none | same | ⟨fresh, -⟩
        · cases none.symm.trans mine
        · exact other (keyed.own caller mover call moving channel there here is
            (same.symm.trans mine))
        · rw [Option.some.inj (fresh.symm.trans mine)] at grows
          exact Nat.lt_irrefl _ (Option.some.inj (fresh.symm.trans mine) ▸
            keyed.bounded caller call channel there is)
      refine ⟨fun caller call channel there is => ?_,
        fun caller other call call' channel there there' is is' => ?_⟩
      · rcases getElem?_set_eq_some there with ⟨rfl, rfl⟩ | ⟨-, old⟩
        · rcases kept with none | same | ⟨fresh, longer⟩
          · cases none.symm.trans is
          · exact Nat.lt_of_lt_of_le
              (keyed.bounded caller moving channel here (same.symm.trans is)) grows
          · rw [← Option.some.inj (fresh.symm.trans is)]
            exact longer ▸ Nat.lt_succ_self _
        · exact Nat.lt_of_lt_of_le (keyed.bounded caller call channel old is) grows
      · rcases getElem?_set_eq_some there with ⟨rfl, rfl⟩ | ⟨apart, old⟩ <;>
          rcases getElem?_set_eq_some there' with ⟨rfl, rfl⟩ | ⟨apart', old'⟩
        · rfl
        · exact absurd is (older old' is' apart')
        · exact absurd is' (older old is apart)
        · exact keyed.own caller other call call' channel old old' is is'

/-- What is staged is not forgotten: somebody is still to wake the worker for it, or to
let its caller go. -/
structure State.Attended (state : State Id Mix Sep) : Prop where
  woken : state.inner.worker = .parked → ∀ staged, state.inner.incoming = some staged →
    ∃ (caller : Nat) (call : Call Id Sep), state.calls[caller]? = some call ∧
      call.channel = some staged.reply ∧ call.notifies = true
  closing : state.inner.shutdown = true → ∀ staged, state.inner.incoming = some staged →
    ∃ caller : Nat, state.calls[caller]? = some .letGo
  gone : state.inner.worker = .gone → state.inner.shutdown = true

theorem State.Attended.advance {before : State Id Mix Sep} {caller : Nat}
    {call next : Call Id Sep} {after : Inner Id Mix Sep} (attended : before.Attended)
    (here : before.calls[caller]? = some call)
    (advances : Call.Advances before.inner call after next) :
    State.Attended ⟨after, before.calls.set caller next⟩ := by
  have inside := (List.getElem?_eq_some_iff.mp here).1
  -- The call that is to wake the worker, or to let the installer go, is another one or still is.
  have waker : (call.notifies = true → next.channel = call.channel ∧ next.notifies = true) →
      ∀ (staged : Staged Sep),
      (∃ (k : Nat) (c : Call Id Sep), before.calls[k]? = some c ∧
        c.channel = some staged.reply ∧ c.notifies = true) →
      ∃ (k : Nat) (c : Call Id Sep), (before.calls.set caller next)[k]? = some c ∧
        c.channel = some staged.reply ∧ c.notifies = true := by
    rintro keeps staged ⟨k, c, there, channel, notifies⟩
    by_cases own : k = caller
    · subst own
      cases there.symm.trans here
      obtain ⟨same, still⟩ := keeps notifies
      exact ⟨k, next, List.getElem?_set_self inside, same.trans channel, still⟩
    · exact ⟨k, c, by rw [List.getElem?_set_ne (Ne.symm own), there], channel, notifies⟩
  have closer : call ≠ .letGo → (∃ k : Nat, before.calls[k]? = some .letGo) →
      ∃ k : Nat, (before.calls.set caller next)[k]? = some .letGo := by
    rintro other ⟨k, there⟩
    refine ⟨k, ?_⟩
    rw [List.getElem?_set_ne ?_, there]
    rintro rfl
    exact other (Option.some.inj (here.symm.trans there))
  cases advances with
  | aside aside outside outside' other =>
      have quiet : call.notifies = false := by
        cases call <;> first | rfl | cases outside
      refine ⟨fun parked staged staging => ?_, fun stopped staged staging => ?_, fun gone => ?_⟩
      · rw [aside.incoming] at staging
        rcases aside.parked parked with parked | none
        · exact waker (fun is => by cases quiet.symm.trans is) staged
            (attended.woken parked staged staging)
        · cases none.symm.trans staging
      · exact closer other (attended.closing (aside.shutdown ▸ stopped) staged
          (aside.incoming ▸ staging))
      · exact aside.shutdown.trans ((aside.gone gone).elim attended.gone id)
  | staged build open' =>
      refine ⟨fun _ staged staging => ?_, fun stopped => ?_, attended.gone⟩
      · cases staging
        exact ⟨caller, _, List.getElem?_set_self inside, rfl, rfl⟩
      · cases stopped.symm.trans open'
  | refused build stopped =>
      exact ⟨fun parked staged staging => waker (fun is => by cases is) staged
          (attended.woken parked staged staging),
        fun stopped staged staging => closer (by simp) (attended.closing stopped staged staging),
        attended.gone⟩
  | superseded channel old =>
      exact ⟨fun parked staged staging => waker (fun _ => ⟨rfl, rfl⟩) staged
          (attended.woken parked staged staging),
        fun stopped staged staging => closer (by simp) (attended.closing stopped staged staging),
        attended.gone⟩
  | alone channel =>
      exact ⟨fun parked staged staging => waker (fun _ => ⟨rfl, rfl⟩) staged
          (attended.woken parked staged staging),
        fun stopped staged staging => closer (by simp) (attended.closing stopped staged staging),
        attended.gone⟩
  | notified channel =>
      have aside := before.inner.notify_aside
      refine ⟨fun parked => absurd parked before.inner.notify_not_parked,
        fun stopped staged staging => ?_, fun gone => ?_⟩
      · exact closer (by simp) (attended.closing (aside.shutdown ▸ stopped) staged
          (aside.incoming ▸ staging))
      · exact aside.shutdown.trans ((aside.gone gone).elim attended.gone id)
  | received channel reply answer =>
      exact ⟨fun parked staged staging => waker (fun is => by cases is) staged
          (attended.woken parked staged staging),
        fun stopped staged staging => closer (by simp) (attended.closing stopped staged staging),
        attended.gone⟩
  | shut =>
      exact ⟨fun parked staged staging => waker (fun is => by cases is) staged
          (attended.woken parked staged staging),
        fun _ _ _ => ⟨caller, List.getElem?_set_self inside⟩, fun _ => rfl⟩
  | letGo staged staging =>
      exact ⟨fun _ _ none => (by cases none), fun _ _ none => (by cases none), attended.gone⟩
  | nobodyLetGo none =>
      exact ⟨fun _ _ staging => (by cases none.symm.trans staging),
        fun _ _ staging => (by cases none.symm.trans staging), attended.gone⟩

theorem State.Attended.serve {before : State Id Mix Sep} {action : Action Id Mix Sep}
    {after : Inner Id Mix Sep} (attended : before.Attended)
    (serves : Inner.Serves before.inner action after) :
    State.Attended { before with inner := after } := by
  cases serves with
  | aside aside =>
      refine ⟨fun parked staged staging => ?_, fun stopped staged staging => ?_, fun gone => ?_⟩
      · rw [aside.incoming] at staging
        rcases aside.parked parked with parked | none
        · exact attended.woken parked staged staging
        · cases none.symm.trans staging
      · exact attended.closing (aside.shutdown ▸ stopped) staged (aside.incoming ▸ staging)
      · exact aside.shutdown.trans ((aside.gone gone).elim attended.gone id)
  | taken staged looking open' staging =>
      exact ⟨fun parked => (by cases parked), fun _ _ none => (by cases none),
        fun gone => by cases gone⟩
  | loaded _ _ | failed _ _ | panicked _ _ | answered _ _ =>
      exact ⟨fun parked => (by cases parked), attended.closing, fun gone => by cases gone⟩

theorem State.Attended.move {before after : State Id Mix Sep} {event : Event Id Mix Sep}
    (attended : before.Attended) (move : Move before event after) : after.Attended := by
  cases move with
  | submit done => exact attended.serve (Inner.serves_of_step rfl done)
  | worker done => exact attended.serve (Inner.serves_of_step (WorkerStep.own _) done)
  | call method =>
      refine ⟨fun parked staged staging => ?_, fun stopped staged staging => ?_, attended.gone⟩
      · obtain ⟨k, c, there, rest⟩ := attended.woken parked staged staging
        exact ⟨k, c, List.getElem?_append_left (List.getElem?_eq_some_iff.mp there).1 ▸ there, rest⟩
      · obtain ⟨k, there⟩ := attended.closing stopped staged staging
        exact ⟨k, List.getElem?_append_left (List.getElem?_eq_some_iff.mp there).1 ▸ there⟩
  | advance here done => exact attended.advance here (Call.advances_of_advance done)

/-- `info` names the separator the worker holds, or the one it is about to answer with. -/
structure Inner.Described (inner : Inner Id Mix Sep) : Prop where
  held : (∀ staged, inner.worker ≠ .answering staged) → inner.info = inner.separator
  built : ∀ staged, inner.worker = .answering staged → inner.info = staged.build

omit [DecidableEq Id] in
theorem Inner.Described.aside {inner after : Inner Id Mix Sep} (described : inner.Described)
    (aside : inner.Aside after) : after.Described where
  held := fun free => by
    rw [aside.info, aside.separator]
    exact described.held fun staged is => free staged ((aside.answering staged).mpr is)
  built := fun staged is => by
    rw [aside.info]
    exact described.built staged ((aside.answering staged).mp is)

theorem described_move {before after : State Id Mix Sep} {event : Event Id Mix Sep}
    (described : before.inner.Described) (move : Move before event after) :
    after.inner.Described := by
  have serve : ∀ {action : Action Id Mix Sep} {inner : Inner Id Mix Sep},
      Inner.Serves before.inner action inner → inner.Described := by
    intro action inner serves
    cases serves with
    | aside aside => exact described.aside aside
    | taken staged looking open' staging =>
        exact ⟨fun _ => described.held (by simp [looking]), fun _ is => by cases is⟩
    | loaded staged building =>
        exact ⟨fun free => absurd rfl (free staged), fun _ is => by cases is; rfl⟩
    | failed staged building | panicked staged building =>
        exact ⟨fun _ => described.held (by simp [building]), fun _ is => by cases is⟩
    | answered staged answering =>
        exact ⟨fun _ => described.built staged answering, fun _ is => by cases is⟩
  cases move with
  | submit done => exact serve (Inner.serves_of_step rfl done)
  | worker done => exact serve (Inner.serves_of_step (WorkerStep.own _) done)
  | call method => exact described
  | advance here done =>
      cases Call.advances_of_advance done with
      | aside aside => exact described.aside aside
      | notified channel => exact described.aside before.inner.notify_aside
      | _ => exact ⟨described.held, described.built⟩

section reached

variable {model : Sep} {maxDepth : Nat} {ok : State Id Mix Sep → Event Id Mix Sep → Prop}
  {state : State Id Mix Sep}

theorem keyed_of_reaches
    (run : (system model maxDepth).Reaches ok (.start model maxDepth) state) : state.Keyed :=
  run.invariant ⟨fun _ _ _ here => by simp [State.start] at here,
      fun _ _ _ _ _ here => by simp [State.start] at here⟩
    fun _ _ _ _ keyed _ done => keyed.move (move_of_step done)

theorem attended_of_reaches
    (run : (system model maxDepth).Reaches ok (.start model maxDepth) state) : state.Attended :=
  run.invariant ⟨fun parked => (by cases parked), fun stopped => (by cases stopped),
      fun gone => by cases gone⟩
    fun _ _ _ _ attended _ done => attended.move (move_of_step done)

theorem described_of_reaches
    (run : (system model maxDepth).Reaches ok (.start model maxDepth) state) :
    state.inner.Described :=
  run.invariant (P := fun state => state.inner.Described)
    ⟨fun _ => rfl, fun _ is => by cases is⟩
    fun _ _ _ _ described _ done => described_move described (move_of_step done)

end reached

inductive Place where
  | answered
  | staged
  | taken
  | superseded (caller : Nat)
  deriving DecidableEq, Repr

def State.At (state : State Id Mix Sep) (channel : Nat) : Place → Prop
  | .answered => ∃ reply, state.inner.channels[channel]? = some (some reply)
  | .staged => ∃ staged, state.inner.incoming = some staged ∧ staged.reply = channel
  | .taken => ∃ staged, state.inner.worker.install = some staged ∧ staged.reply = channel
  | .superseded caller => ∃ call staged, state.calls[caller]? = some call ∧
      call.superseded = some staged ∧ staged.reply = channel

theorem two_le_countP {α : Type} {p : α → Bool} {l : List α} {i j : Nat} {a b : α}
    (here : l[i]? = some a) (there : l[j]? = some b) (apart : i ≠ j) (first : p a = true)
    (second : p b = true) : 2 ≤ l.countP p := by
  induction l generalizing i j with
  | nil => simp at here
  | cons head tail ih =>
      cases i with
      | zero =>
          cases j with
          | zero => exact absurd rfl apart
          | succ j =>
              simp only [List.getElem?_cons_zero, Option.some.injEq] at here
              subst here
              have rest : 1 ≤ tail.countP p :=
                List.countP_pos_iff.mpr ⟨b, List.mem_of_getElem? (by simpa using there), second⟩
              rw [List.countP_cons_of_pos first]
              omega
      | succ i =>
          cases j with
          | zero =>
              simp only [List.getElem?_cons_zero, Option.some.injEq] at there
              subst there
              have rest : 1 ≤ tail.countP p :=
                List.countP_pos_iff.mpr ⟨a, List.mem_of_getElem? (by simpa using here), first⟩
              rw [List.countP_cons_of_pos second]
              omega
          | succ j =>
              have rest := ih (by simpa using here) (by simpa using there) (by omega)
              exact rest.trans (List.Sublist.countP_le (List.sublist_cons_self head tail))

def State.share (state : State Id Mix Sep) (channel : Nat) : Place → Nat
  | .answered => state.inner.answeredOn channel
  | .staged => heldFor channel state.inner.incoming
  | .taken => heldFor channel state.inner.worker.install
  | .superseded _ => state.calls.countP fun call => call.superseded.map (·.reply) = some channel

omit [DecidableEq Id] in
theorem State.At.counted {state : State Id Mix Sep} {channel : Nat} {place : Place}
    (here : state.At channel place) : 1 ≤ state.share channel place := by
  cases place with
  | answered =>
      obtain ⟨reply, answer⟩ := here
      simp [share, Inner.answeredOn, answer]
  | staged =>
      obtain ⟨staged, staging, mine⟩ := here
      simp [share, staging, mine]
  | taken =>
      obtain ⟨staged, held, mine⟩ := here
      simp [share, held, mine]
  | superseded caller =>
      obtain ⟨call, old, there, is, mine⟩ := here
      exact List.countP_pos_iff.mpr ⟨call, List.mem_of_getElem? there, by simp [is, mine]⟩

omit [DecidableEq Id] in
theorem State.at_of_share {state : State Id Mix Sep} {channel : Nat}
    (inside : 0 < state.places channel) : ∃ place, state.At channel place := by
  by_cases waits : 0 < state.calls.countP fun call => call.superseded.map (·.reply) = some channel
  · obtain ⟨call, member, is⟩ := List.countP_pos_iff.mp waits
    obtain ⟨caller, here⟩ := List.getElem?_of_mem member
    obtain ⟨old, is, mine⟩ := Option.map_eq_some_iff.mp (of_decide_eq_true is)
    exact ⟨.superseded caller, call, old, here, is, mine⟩
  · simp only [places, Inner.answeredOn, heldFor] at inside
    split at inside
    · rename_i answered
      obtain ⟨reply, answer⟩ := Option.isSome_iff_exists.mp answered
      exact ⟨.answered, reply, Option.join_eq_some_iff.mp answer⟩
    · split at inside
      · rename_i staged
        exact ⟨.staged, Option.map_eq_some_iff.mp staged⟩
      · split at inside
        · rename_i taken
          exact ⟨.taken, Option.map_eq_some_iff.mp taken⟩
        · omega

omit [DecidableEq Id] in
/-- Every channel handed out is in exactly one place. -/
theorem State.Placed.exactly_one {state : State Id Mix Sep} (placed : state.Placed) {channel : Nat}
    (inside : channel < state.inner.channels.length) : ∃! place, state.At channel place := by
  have once := placed channel
  rw [if_pos inside] at once
  obtain ⟨place, here⟩ := state.at_of_share (once ▸ Nat.one_pos)
  refine ⟨place, here, fun other there => ?_⟩
  have first := here.counted
  have second := there.counted
  -- Two places of different kinds would make two of the one.
  cases place <;> cases other <;> simp only [share, places] at first second once <;>
    first | rfl | omega | skip
  case superseded.superseded caller other =>
    obtain ⟨call, old, first, is, mine⟩ := here
    obtain ⟨call', old', second, is', mine'⟩ := there
    by_contra apart
    have two := two_le_countP
      (p := fun call : Call Id Sep => call.superseded.map (·.reply) = some channel)
      second first (fun same => apart (same ▸ rfl)) (by simp [is', mine']) (by simp [is, mine])
    omega

def Call.Answers (inner : Inner Id Mix Sep) (channel : Nat) (reply : Reply Sep)
    (call : Call Id Sep) : Prop :=
  ∀ late, ∃ after next, call.advance late inner = some (after, next) ∧
    after.channels[channel]? = some (some reply)

/-- Nobody waits on an idle worker but for a call that is about to answer. -/
def State.Awaited (state : State Id Mix Sep) : Prop :=
  ∀ (caller : Nat) channel, state.calls[caller]? = some (.receive channel) →
    state.inner.channels[channel]? = some none → state.inner.worker.idle = true →
      ∃ (other : Nat) (call : Call Id Sep), state.calls[other]? = some call ∧
        (call.Answers state.inner channel .superseded ∨
          call.Answers state.inner channel .shuttingDown)

omit [DecidableEq Id] in
theorem Inner.send_answers {inner : Inner Id Mix Sep} {channel : Nat} (reply : Reply Sep)
    (open' : inner.channels[channel]? = some none) :
    (inner.send channel reply).channels[channel]? = some (some reply) :=
  List.getElem?_set_self (List.getElem?_eq_some_iff.mp open').1

theorem letGo_answers {inner : Inner Id Mix Sep} {staged : Staged Sep}
    (staging : inner.incoming = some staged)
    (open' : inner.channels[staged.reply]? = some none) :
    (Call.letGo : Call Id Sep).Answers inner staged.reply .shuttingDown := by
  intro late
  refine ⟨_, _, rfl, ?_⟩
  rw [Inner.letGo, staging]
  exact Inner.send_answers .shuttingDown open'

theorem supersede_answers {inner : Inner Id Mix Sep} {call : Call Id Sep} {staged : Staged Sep}
    (is : call.superseded = some staged) (open' : inner.channels[staged.reply]? = some none) :
    call.Answers inner staged.reply .superseded := by
  cases call <;> cases is
  intro late
  exact ⟨_, _, rfl, Inner.send_answers .superseded open'⟩

theorem awaited {state : State Id Mix Sep} (placed : state.Placed) (keyed : state.Keyed)
    (attended : state.Attended) : state.Awaited := by
  intro caller channel here open' idle
  have inside := (List.getElem?_eq_some_iff.mp open').1
  obtain ⟨place, there, -⟩ := placed.exactly_one inside
  cases place with
  | answered =>
      obtain ⟨reply, answer⟩ := there
      cases open'.symm.trans answer
  | taken =>
      obtain ⟨staged, held, -⟩ := there
      cases at' : state.inner.worker <;> simp [at', Worker.idle, Worker.install] at idle held
  | superseded other =>
      obtain ⟨call, staged, there, is, rfl⟩ := there
      exact ⟨other, call, there, .inl (supersede_answers is open')⟩
  | staged =>
      obtain ⟨staged, staging, rfl⟩ := there
      cases at' : state.inner.worker with
      | parked =>
          -- Whoever staged it has yet to wake the worker, and so does not wait.
          obtain ⟨other, call, there, mine, notifies⟩ := attended.woken at' staged staging
          obtain rfl := keyed.own other caller call _ _ there here mine rfl
          cases there.symm.trans here
          cases notifies
      | gone =>
          obtain ⟨other, there⟩ := attended.closing (attended.gone at') staged staging
          exact ⟨other, .letGo, there, .inr (letGo_answers staging open')⟩
      | _ => simp [at', Worker.idle] at idle

end Stemd.Queue
