import Stemd.Queue.Inner
import Stemd.Semantics.Line

/-! Where every job goes, and in what order.

The shared state refines a ledger: whatever the order of critical sections, each one
either leaves the account of jobs alone or accepts, withdraws, begins or ends one. -/

set_option autoImplicit false

namespace Stemd.Queue

open Stemd.Core
open Stemd.Semantics

namespace Inner

variable {Id Mix Sep : Type}

def waiting (inner : Inner Id Mix Sep) : List Id := inner.pending.map (·.job)

def ledger (inner : Inner Id Mix Sep) : Ledger Id where
  accepted := inner.history.accepted
  waiting := inner.waiting
  running := inner.running.map (·.id)
  finished := inner.history.finished
  removed := inner.history.removed

@[simp] theorem start_ledger (model : Sep) (maxDepth : Nat) :
    (start model maxDepth : Inner Id Mix Sep).ledger = .empty := rfl

structure Served (inner : Inner Id Mix Sep) : Prop where
  taken : inner.history.taken = inner.ledger.taken
  slot : ∀ claimed, inner.worker = .separating claimed →
    inner.running = some ⟨claimed.work.job, claimed.cancel⟩
  idle : (∀ claimed, inner.worker ≠ .separating claimed) → inner.running = none
  flagged : ∀ running, inner.running = some running → running.cancel < inner.flags.length

theorem notify_frame (inner : Inner Id Mix Sep) :
    inner.notify = inner ∨
      inner.worker = .parked ∧ inner.notify = { inner with worker := .looking } := by
  unfold notify
  split
  · rename_i parked
    exact .inr ⟨parked, rfl⟩
  · exact .inl rfl

def Raises (before after : List Bool) : Prop :=
  after.length = before.length ∧
    ∀ flag : Nat, before[flag]? = some true → after[flag]? = some true

theorem Raises.refl (flags : List Bool) : Raises flags flags := ⟨rfl, fun _ raised => raised⟩

theorem setFlag_raises (inner : Inner Id Mix Sep) (flag : Nat) :
    Raises inner.flags (inner.setFlag flag).flags := by
  refine ⟨List.length_set, fun other raised => ?_⟩
  have inside : other < inner.flags.length := (List.getElem?_eq_some_iff.mp raised).1
  simp only [setFlag, List.getElem?_set]
  split
  · rename_i same
    simp [same, inside]
  · exact raised

theorem flagRunning_frame (inner : Inner Id Mix Sep) :
    inner.flagRunning = { inner with flags := inner.flagRunning.flags } ∧
      Raises inner.flags inner.flagRunning.flags := by
  unfold flagRunning
  split
  · exact ⟨rfl, inner.setFlag_raises _⟩
  · exact ⟨rfl, .refl _⟩

theorem letGo_frame (inner : Inner Id Mix Sep) :
    inner.letGo = { inner with incoming := none, channels := inner.letGo.channels } := by
  unfold letGo
  split
  · rfl
  · rename_i none
    rw [← none]

theorem submit_ok {inner after : Inner Id Mix Sep} {work : QueuedWork Id Mix} {position : Nat}
    (done : inner.submit work = .ok (position, after)) :
    inner.pending.length < inner.maxDepth ∧ position = inner.pending.length ∧
      after = notify { inner with
        pending := inner.pending ++ [work]
        history := { inner.history with accepted := inner.history.accepted ++ [work.job] } } := by
  unfold submit at done
  split at done
  · cases done
  · rename_i room
    cases done
    exact ⟨by omega, rfl, rfl⟩

theorem submit_error {inner : Inner Id Mix Sep} {work : QueuedWork Id Mix} {full : QueueFull}
    (refused : inner.submit work = .error full) :
    inner.maxDepth ≤ inner.pending.length ∧ full = ⟨inner.pending.length⟩ := by
  unfold submit at refused
  split at refused
  · rename_i full
    cases refused
    exact ⟨full, rfl⟩
  · cases refused

variable [DecidableEq Id]

theorem cancelRunning_frame (inner : Inner Id Mix Sep) (id : Id) :
    (inner.cancelRunning id).2 = { inner with flags := (inner.cancelRunning id).2.flags } ∧
      Raises inner.flags (inner.cancelRunning id).2.flags := by
  unfold cancelRunning
  split
  · split
    · exact ⟨rfl, inner.setFlag_raises _⟩
    · exact ⟨rfl, .refl _⟩
  · exact ⟨rfl, .refl _⟩

def taking (inner : Inner Id Mix Sep) (work : QueuedWork Id Mix)
    (rest : List (QueuedWork Id Mix)) : Inner Id Mix Sep :=
  { inner with
    pending := rest
    running := some ⟨work.job, inner.flags.length⟩
    flags := inner.flags ++ [false]
    worker := .separating ⟨work, inner.flags.length⟩
    history := { inner.history with taken := inner.history.taken ++ [work.job] } }

inductive Steps (inner : Inner Id Mix Sep) : Action Id Mix Sep → Inner Id Mix Sep → Prop where
  | accepted (work : QueuedWork Id Mix) (room : inner.pending.length < inner.maxDepth) :
      Steps inner (.submit work) (notify { inner with
        pending := inner.pending ++ [work]
        history := { inner.history with accepted := inner.history.accepted ++ [work.job] } })
  | refused (work : QueuedWork Id Mix) : Steps inner (.submit work) inner
  | cancelledPending (id : Id) : Steps inner (.cancelPending id) (inner.cancelPending id).2
  | cancelledRunning (id : Id) (flags : List Bool) (raises : Raises inner.flags flags) :
      Steps inner (.cancelRunning id) { inner with flags := flags }
  | staged (build : Sep) (open' : inner.shutdown = false) :
      Steps inner (.stage build) { inner with
        incoming := some ⟨build, inner.channels.length⟩
        channels := inner.channels ++ [none] }
  | sent (channel : Nat) (reply : Reply Sep) :
      Steps inner (.send channel reply) (inner.send channel reply)
  | notified : Steps inner .notify inner.notify
  | shut : Steps inner .shut inner.shut
  | letGo (staged : Staged Sep) (staging : inner.incoming = some staged) :
      Steps inner .letGo (send { inner with incoming := none } staged.reply .shuttingDown)
  | nobodyLetGo (none : inner.incoming = none) : Steps inner .letGo inner
  | flagged (flags : List Bool) (raises : Raises inner.flags flags) :
      Steps inner .flagRunning { inner with flags := flags }
  | handleTaken : Steps inner .takeHandle { inner with handle := false }
  | left (looking : inner.worker = .looking) (stopped : inner.shutdown = true) :
      Steps inner .next { inner with worker := .gone }
  | takenModel (staged : Staged Sep) (looking : inner.worker = .looking)
      (open' : inner.shutdown = false) (staging : inner.incoming = some staged) :
      Steps inner .next { inner with
        incoming := none
        worker := .building staged
        history := { inner.history with models := inner.history.models ++ [staged.build] } }
  | takenJob (work : QueuedWork Id Mix) (rest : List (QueuedWork Id Mix))
      (looking : inner.worker = .looking) (open' : inner.shutdown = false)
      (none : inner.incoming = none) (waiting : inner.pending = work :: rest) :
      Steps inner .next (inner.taking work rest)
  | parked (looking : inner.worker = .looking) (open' : inner.shutdown = false)
      (none : inner.incoming = none) : Steps inner .next { inner with worker := .parked }
  | built (staged : Staged Sep) (outcome : BuildOutcome)
      (building : inner.worker = .building staged) :
      Steps inner (.built outcome) (inner.built staged outcome)
  | answered (staged : Staged Sep) (answering : inner.worker = .answering staged) :
      Steps inner .answered (inner.answered staged)
  | finished (claimed : Claimed Id Mix) (separating : inner.worker = .separating claimed) :
      Steps inner .finished (inner.finished claimed)

theorem steps_of_step {inner after : Inner Id Mix Sep} {action : Action Id Mix Sep}
    (done : inner.step action = some after) : Steps inner action after := by
  cases action with
  | submit work =>
      simp only [step] at done
      split at done
      · rename_i position next accepted
        cases done
        obtain ⟨room, -, rfl⟩ := submit_ok accepted
        exact .accepted work room
      · cases done
        exact .refused work
  | cancelPending id =>
      cases done
      exact .cancelledPending id
  | cancelRunning id =>
      cases done
      obtain ⟨same, raises⟩ := cancelRunning_frame inner id
      rw [same]
      exact .cancelledRunning id _ raises
  | stage build =>
      obtain ⟨staged, staging, rfl⟩ := Option.map_eq_some_iff.mp done
      simp only [stage] at staging
      split at staging <;> cases staging
      rename_i open'
      exact .staged build (by simpa using open')
  | send channel reply =>
      cases done
      exact .sent channel reply
  | notify =>
      cases done
      exact .notified
  | shut =>
      cases done
      exact .shut
  | letGo =>
      cases done
      unfold letGo
      split
      · rename_i staged staging
        exact .letGo staged staging
      · rename_i none
        exact .nobodyLetGo none
  | flagRunning =>
      cases done
      obtain ⟨same, raises⟩ := flagRunning_frame inner
      rw [same]
      exact .flagged _ raises
  | takeHandle =>
      cases done
      exact .handleTaken
  | next =>
      simp only [step] at done
      split at done <;> cases done
      rename_i looking
      -- Shutdown is read first, then what is staged, and only then what waits.
      cases stopped : inner.shutdown with
      | true =>
          rw [next, if_pos stopped]
          exact .left looking stopped
      | false =>
          cases staged : inner.incoming with
          | some model =>
              have looks : inner.next = { inner with
                  incoming := none
                  worker := .building model
                  history := { inner.history with
                    models := inner.history.models ++ [model.build] } } := by
                simp [next, stopped, staged]
              exact looks ▸ .takenModel model looking stopped staged
          | none =>
              cases waiting : inner.pending with
              | cons work rest =>
                  have looks : inner.next = inner.taking work rest := by
                    simp [next, taking, stopped, staged, waiting]
                  exact looks ▸ .takenJob work rest looking stopped staged waiting
              | nil =>
                  have looks : inner.next = { inner with worker := .parked } := by
                    simp [next, stopped, staged, waiting]
                  exact looks ▸ .parked looking stopped staged
  | built outcome =>
      simp only [step] at done
      split at done <;> cases done
      rename_i staged building
      exact .built staged outcome building
  | answered =>
      simp only [step] at done
      split at done <;> cases done
      rename_i staged answering
      exact .answered staged answering
  | finished =>
      simp only [step] at done
      split at done <;> cases done
      rename_i claimed separating
      exact .finished claimed separating

/-- The account and the worker's position are untouched, except that a parked worker may
have been woken. -/
structure Unaccounted (inner after : Inner Id Mix Sep) : Prop where
  ledger : after.ledger = inner.ledger
  pending : after.pending = inner.pending
  taken : after.history.taken = inner.history.taken
  running : after.running = inner.running
  depth : after.maxDepth = inner.maxDepth
  flags : after.flags.length = inner.flags.length
  worker : ∀ claimed, after.worker = .separating claimed ↔ inner.worker = .separating claimed

omit [DecidableEq Id] in
theorem Unaccounted.served {inner after : Inner Id Mix Sep} (same : Unaccounted inner after)
    (served : inner.Served) : after.Served where
  taken := by rw [same.taken, served.taken, same.ledger]
  slot := fun claimed is => same.running ▸ served.slot claimed ((same.worker claimed).mp is)
  idle := fun free => same.running ▸ served.idle fun claimed is =>
    free claimed ((same.worker claimed).mpr is)
  flagged := fun running busy => by
    rw [same.flags]
    exact served.flagged running (same.running ▸ busy)

omit [DecidableEq Id] in
theorem unaccounted_notify (inner : Inner Id Mix Sep) : Unaccounted inner inner.notify := by
  rcases inner.notify_frame with same | ⟨parked, same⟩ <;> rw [same]
  · exact ⟨rfl, rfl, rfl, rfl, rfl, rfl, fun _ => Iff.rfl⟩
  · exact ⟨rfl, rfl, rfl, rfl, rfl, rfl, fun _ => by simp [parked]⟩

omit [DecidableEq Id] in
theorem submit_accepts {inner after : Inner Id Mix Sep} {work : QueuedWork Id Mix} {position : Nat}
    (done : inner.submit work = .ok (position, after)) :
    Unaccounted { inner with
      pending := inner.pending ++ [work]
      history := { inner.history with accepted := inner.history.accepted ++ [work.job] } }
      after := by
  obtain ⟨-, -, rfl⟩ := submit_ok done
  exact unaccounted_notify _

omit [DecidableEq Id] in
theorem submit_ledger {inner after : Inner Id Mix Sep} {work : QueuedWork Id Mix} {position : Nat}
    (done : inner.submit work = .ok (position, after)) :
    after.ledger = { inner.ledger with
      accepted := inner.ledger.accepted ++ [work.job]
      waiting := inner.ledger.waiting ++ [work.job] } := by
  rw [(submit_accepts done).ledger]
  simp [ledger, Inner.waiting]

theorem step_submit {inner after : Inner Id Mix Sep} {work : QueuedWork Id Mix} {position : Nat}
    (done : inner.submit work = .ok (position, after)) :
    inner.step (.submit work) = some after := by
  rw [step, done]

theorem step_cases {inner after : Inner Id Mix Sep} {action : Action Id Mix Sep}
    (served : inner.Served) (done : inner.step action = some after) :
    Unaccounted inner after ∨
      (∃ work, action = .submit work ∧ inner.pending.length < inner.maxDepth ∧
        Unaccounted { inner with
          pending := inner.pending ++ [work]
          history := { inner.history with accepted := inner.history.accepted ++ [work.job] } }
          after) ∨
      (∃ id, action = .cancelPending id ∧ after = (inner.cancelPending id).2) ∨
      (∃ work rest, action = .next ∧ inner.worker = .looking ∧ inner.shutdown = false ∧
        inner.incoming = none ∧ inner.pending = work :: rest ∧ after = inner.taking work rest) ∨
      ∃ claimed, action = .finished ∧ inner.worker = .separating claimed ∧
        inner.running = some ⟨claimed.work.job, claimed.cancel⟩ ∧
        after = inner.finished claimed := by
  cases steps_of_step done with
  | accepted work room => exact .inr (.inl ⟨work, rfl, room, unaccounted_notify _⟩)
  | cancelledPending id => exact .inr (.inr (.inl ⟨id, rfl, rfl⟩))
  | cancelledRunning id flags raises =>
      exact .inl ⟨rfl, rfl, rfl, rfl, rfl, raises.1, fun _ => Iff.rfl⟩
  | flagged flags raises => exact .inl ⟨rfl, rfl, rfl, rfl, rfl, raises.1, fun _ => Iff.rfl⟩
  | notified => exact .inl (unaccounted_notify inner)
  | left looking | takenModel _ looking | parked looking =>
      exact .inl ⟨rfl, rfl, rfl, rfl, rfl, rfl, fun _ => by simp [looking]⟩
  | takenJob work rest looking open' none waiting =>
      exact .inr (.inr (.inr (.inl ⟨work, rest, rfl, looking, open', none, waiting, rfl⟩)))
  | built staged outcome building =>
      cases outcome <;>
        exact .inl ⟨rfl, rfl, rfl, rfl, rfl, rfl, fun _ => by simp [built, send, building]⟩
  | answered staged answering =>
      exact .inl ⟨rfl, rfl, rfl, rfl, rfl, rfl, fun _ => by simp [answered, send, answering]⟩
  | finished claimed separating =>
      exact .inr (.inr (.inr (.inr ⟨claimed, rfl, separating, served.slot claimed separating,
        rfl⟩)))
  | refused _ | staged _ _ | sent _ _ | shut | letGo _ _ | nobodyLetGo _ | handleTaken =>
      exact .inl ⟨rfl, rfl, rfl, rfl, rfl, rfl, fun _ => Iff.rfl⟩

theorem Served.step {inner after : Inner Id Mix Sep} {action : Action Id Mix Sep}
    (served : inner.Served) (done : inner.step action = some after) : after.Served := by
  rcases step_cases served done with same | ⟨work, -, -, same⟩ | ⟨id, -, rfl⟩ |
    ⟨work, rest, -, looking, open', none, waiting, rfl⟩ | ⟨claimed, -, separating, running, rfl⟩
  · exact same.served served
  · exact same.served ⟨served.taken, served.slot, served.idle, served.flagged⟩
  · exact ⟨served.taken, served.slot, served.idle, served.flagged⟩
  · have free := served.idle fun claimed is => by simp [looking] at is
    refine ⟨?_, ?_, ?_, ?_⟩ <;> simp [taking]
    simpa [ledger, Ledger.taken, free] using served.taken
  · refine ⟨?_, ?_, ?_, ?_⟩ <;> simp [finished]
    simpa [ledger, Ledger.taken, running] using served.taken

omit [DecidableEq Id] in
theorem start_served (model : Sep) (maxDepth : Nat) :
    (start model maxDepth : Inner Id Mix Sep).Served :=
  ⟨rfl, fun _ is => (by cases is), fun _ => rfl, fun _ busy => by cases busy⟩

theorem accepted_step {inner after : Inner Id Mix Sep} {action : Action Id Mix Sep}
    (served : inner.Served) (done : inner.step action = some after)
    (other : ∀ work, action ≠ .submit work) :
    after.history.accepted = inner.history.accepted := by
  rcases step_cases served done with same | ⟨work, is, -, -⟩ | ⟨id, -, rfl⟩ |
    ⟨work, rest, -, -, open', none, waiting, rfl⟩ | ⟨claimed, -, -, -, rfl⟩
  · exact congrArg Ledger.accepted same.ledger
  · exact absurd is (other work)
  · rfl
  · rfl
  · rfl

theorem running_step {inner after : Inner Id Mix Sep} {action : Action Id Mix Sep}
    (served : inner.Served) (done : inner.step action = some after) (takes : action ≠ .next)
    (finishes : action ≠ .finished) : after.ledger.running = inner.ledger.running := by
  rcases step_cases served done with same | ⟨work, -, -, same⟩ | ⟨id, -, rfl⟩ |
    ⟨work, rest, is, -⟩ | ⟨claimed, is, -⟩
  · rw [same.ledger]
  · rw [same.ledger]
    rfl
  · rfl
  · exact absurd is takes
  · exact absurd is finishes

theorem shifts_step {inner after : Inner Id Mix Sep} {action : Action Id Mix Sep}
    (served : inner.Served) (done : inner.step action = some after) :
    Shifts inner.waiting after.waiting := by
  rcases step_cases served done with same | ⟨work, -, -, same⟩ | ⟨id, -, rfl⟩ |
    ⟨work, rest, -, -, open', none, waiting, rfl⟩ | ⟨claimed, -, -, -, rfl⟩
  · have kept : after.waiting = inner.waiting := congrArg Ledger.waiting same.ledger
    exact kept ▸ .stays _
  · have joined : after.waiting = inner.waiting ++ [work.job] :=
      (congrArg Ledger.waiting same.ledger).trans (List.map_append ..)
    exact joined ▸ .joins _ _
  · have left : (inner.cancelPending id).2.waiting = inner.waiting.filter (· ≠ id) := by
      rw [Inner.waiting, Inner.waiting, List.filter_map]
      rfl
    exact left ▸ .leaves _ _
  · have line : inner.waiting = work.job :: rest.map (·.job) := by
      rw [Inner.waiting, waiting]
      rfl
    exact line ▸ .served _ _
  · exact .stays _

theorem left_step {inner after : Inner Id Mix Sep} {action : Action Id Mix Sep}
    (served : inner.Served) (done : inner.step action = some after) {id : Id}
    (stood : id ∈ inner.waiting) (left : id ∉ after.waiting) :
    id ∈ after.history.removed ∨ inner.waiting.idxOf id = 0 := by
  rcases step_cases served done with same | ⟨work, -, -, same⟩ | ⟨other, -, rfl⟩ |
    ⟨work, rest, -, -, open', none, waiting, rfl⟩ | ⟨claimed, -, -, -, rfl⟩
  · have kept : after.waiting = inner.waiting := congrArg Ledger.waiting same.ledger
    exact absurd (kept ▸ stood) left
  · have joined : after.waiting = inner.waiting ++ [work.job] :=
      (congrArg Ledger.waiting same.ledger).trans (List.map_append ..)
    exact absurd (joined ▸ List.mem_append_left _ stood) left
  · by_cases mine : id = other
    · subst mine
      exact .inl (List.mem_append_right _ (List.mem_filter.mpr ⟨stood, decide_eq_true rfl⟩))
    · obtain ⟨work, member, rfl⟩ := List.mem_map.mp stood
      exact absurd (List.mem_map_of_mem (List.mem_filter.mpr ⟨member, decide_eq_true mine⟩)) left
  · have line : inner.waiting = work.job :: rest.map (·.job) := by
      rw [Inner.waiting, waiting]
      rfl
    rw [line] at stood ⊢
    rcases List.mem_cons.mp stood with rfl | later
    · exact .inr List.idxOf_cons_self
    · exact absurd later left
  · exact absurd stood left

theorem work_step {inner after : Inner Id Mix Sep} {action : Action Id Mix Sep}
    (served : inner.Served) (done : inner.step action = some after)
    (other : ∀ work, action ≠ .submit work) :
    (∀ work ∈ after.pending, work ∈ inner.pending) ∧
      ∀ claimed, after.worker = .separating claimed →
        inner.worker = .separating claimed ∨ claimed.work ∈ inner.pending := by
  rcases step_cases served done with same | ⟨work, is, -, -⟩ | ⟨id, -, rfl⟩ |
    ⟨work, rest, -, -, open', none, waiting, rfl⟩ | ⟨claimed, -, -, -, rfl⟩
  · exact ⟨fun work member => same.pending ▸ member,
      fun claimed busy => .inl ((same.worker claimed).mp busy)⟩
  · exact absurd is (other work)
  · exact ⟨fun work member => (List.mem_filter.mp member).1, fun claimed busy => .inl busy⟩
  · refine ⟨fun w member => ?_, fun claimed busy => .inr ?_⟩
    · rw [waiting]
      exact List.mem_cons_of_mem _ member
    · rw [waiting]
      cases busy
      exact List.mem_cons_self
  · exact ⟨fun _ member => member, fun _ busy => by cases busy⟩

/-- The worker changes separators only when it answers an install. -/
theorem separator_step {inner after : Inner Id Mix Sep} {action : Action Id Mix Sep}
    (done : inner.step action = some after) (other : action ≠ .answered) :
    after.separator = inner.separator := by
  have notified : ∀ inner : Inner Id Mix Sep, inner.notify.separator = inner.separator := by
    intro inner
    rcases inner.notify_frame with same | ⟨-, same⟩ <;> rw [same]
  cases steps_of_step done with
  | accepted work room => exact notified _
  | notified => exact notified inner
  | built staged outcome building => cases outcome <;> rfl
  | answered staged answering => exact absurd rfl other
  | _ => rfl

theorem served_of_reaches {model : Sep} {maxDepth : Nat}
    {ok : Inner Id Mix Sep → Action Id Mix Sep → Prop} {inner : Inner Id Mix Sep}
    (run : (innerSystem model maxDepth).Reaches ok (.start model maxDepth) inner) :
    inner.Served :=
  run.invariant (start_served model maxDepth) fun _ _ _ _ served _ done => served.step done

/-- The account after one critical section is one entry further, or where it was. -/
theorem ledger_step {inner after : Inner Id Mix Sep} {action : Action Id Mix Sep}
    (served : inner.Served) (done : inner.step action = some after) :
    after.ledger = inner.ledger ∨ ∃ event, inner.ledger.step event = some after.ledger ∧
      ∀ item, event = .accept item → ∃ work, action = .submit work ∧ work.job = item := by
  rcases step_cases served done with same | ⟨work, is, -, same⟩ | ⟨id, -, rfl⟩ |
    ⟨work, rest, -, looking, open', none, waiting, rfl⟩ | ⟨claimed, -, separating, running, rfl⟩
  · exact .inl same.ledger
  · refine .inr ⟨.accept work.job, ?_, fun item same => ⟨work, is, by cases same; rfl⟩⟩
    rw [same.ledger]
    simp [Ledger.step, ledger, Inner.waiting]
  · refine .inr ⟨.remove id, ?_, fun _ is => by cases is⟩
    simp only [Ledger.step, ledger, Inner.waiting, cancelPending, List.filter_map]
    rfl
  · have free := served.idle fun claimed is => by simp [looking] at is
    refine .inr ⟨.start, ?_, fun _ is => by cases is⟩
    simp [Ledger.step, ledger, Inner.waiting, taking, waiting, free]
  · refine .inr ⟨.finish, ?_, fun _ is => by cases is⟩
    simp [Ledger.step, ledger, Inner.waiting, finished, running]

theorem ledger_fresh_step {inner after : Inner Id Mix Sep} {action : Action Id Mix Sep}
    (served : inner.Served) (done : inner.step action = some after)
    (once : ∀ work, action = .submit work → work.job ∉ inner.history.accepted) :
    after.ledger = inner.ledger ∨
      ∃ event, inner.ledger.Fresh event ∧ inner.ledger.step event = some after.ledger := by
  rcases ledger_step served done with same | ⟨event, step, accepts⟩
  · exact .inl same
  · refine .inr ⟨event, ?_, step⟩
    cases event with
    | accept item =>
        obtain ⟨work, is, rfl⟩ := accepts item rfl
        exact once work is
    | _ => trivial

theorem sound_step {inner after : Inner Id Mix Sep} {action : Action Id Mix Sep}
    (served : inner.Served) (sound : inner.ledger.Sound) (done : inner.step action = some after)
    (once : ∀ work, action = .submit work → work.job ∉ inner.history.accepted) :
    after.ledger.Sound := by
  rcases ledger_fresh_step served done once with same | ⟨event, fresh, step⟩
  · exact same ▸ sound
  · exact sound.step fresh step

def SubmitsOnce (inner : Inner Id Mix Sep) : Action Id Mix Sep → Prop
  | .submit work => work.job ∉ inner.history.accepted
  | _ => True

instance (inner : Inner Id Mix Sep) (action : Action Id Mix Sep) :
    Decidable (SubmitsOnce inner action) := by
  cases action <;> unfold SubmitsOnce <;> infer_instance

theorem sound_of_reaches {model : Sep} {maxDepth : Nat} {inner : Inner Id Mix Sep}
    (run : (innerSystem model maxDepth).Reaches SubmitsOnce (.start model maxDepth) inner) :
    inner.ledger.Sound := by
  apply Ledger.sound_of_reaches
  refine run.project Ledger.system ledger fun before action after path once done => ?_
  refine ledger_fresh_step (served_of_reaches path) done fun work is => ?_
  rw [is] at once
  exact once

theorem depth_of_reaches {model : Sep} {maxDepth : Nat}
    {ok : Inner Id Mix Sep → Action Id Mix Sep → Prop} {inner : Inner Id Mix Sep}
    (run : (innerSystem model maxDepth).Reaches ok (.start model maxDepth) inner) :
    inner.maxDepth = maxDepth ∧ inner.pending.length ≤ maxDepth := by
  refine run.invariant (P := fun inner => inner.maxDepth = maxDepth ∧
    inner.pending.length ≤ maxDepth) ⟨rfl, Nat.zero_le _⟩
    fun before action after path bounded _ done => ?_
  obtain ⟨depth, bound⟩ := bounded
  rcases step_cases (served_of_reaches path) done with same | ⟨work, -, room, same⟩ |
    ⟨id, -, rfl⟩ | ⟨work, rest, -, looking, open', none, waiting, rfl⟩ |
    ⟨claimed, -, separating, running, rfl⟩
  · exact ⟨same.depth.trans depth, by rw [same.pending]; exact bound⟩
  · refine ⟨same.depth.trans depth, ?_⟩
    simp only [same.pending, List.length_append, List.length_singleton]
    omega
  · exact ⟨depth, (List.length_filter_le _ _).trans bound⟩
  · simp only [waiting, List.length_cons] at bound
    exact ⟨depth, Nat.le_of_succ_le bound⟩
  · exact ⟨depth, bound⟩

end Inner

end Stemd.Queue
