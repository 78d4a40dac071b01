import Stemd.Server.Stranding

/-! Whether a job that leaves the queue is finished for everyone who holds it.

The worker ends every job it has taken. A job taken out while it still waits is only
forgotten: nobody writes to it again, and whoever polls it sees it queued for ever. -/

set_option autoImplicit false

namespace Stemd.Server

open Stemd.Core
open Stemd.Semantics

variable {R Sep : Type}

def LeftTerminal (server : AppState R Sep) : Prop :=
  ∀ id ∈ server.queue.history.accepted, id ∉ server.queue.waiting →
    server.queue.ledger.running ≠ some id → server.isTerminal id = true

instance (server : AppState R Sep) : Decidable (LeftTerminal server) :=
  inferInstanceAs (Decidable (∀ id ∈ server.queue.history.accepted, _))

def Point.cancelling : Point R Sep → Option Nat
  | .calling (.cancelPending job) _ => some job
  | _ => none

def AppState.cancelling (server : AppState R Sep) : Event R Sep → Option Nat :=
  server.advancing fun _ point => point.cancelling

/-- Nothing is cancelled while it waits. -/
def SparesWaiting (server : AppState R Sep) (event : Event R Sep) : Prop :=
  ∀ job ∈ server.cancelling event, job ∉ server.queue.waiting

instance (server : AppState R Sep) (event : Event R Sep) :
    Decidable (SparesWaiting server event) :=
  inferInstanceAs (Decidable (∀ job ∈ server.cancelling event, _))

theorem Owned.leftTerminal_iff {server : AppState R Sep} (owned : Owned server) :
    LeftTerminal server ↔ ∀ id, id ∉ server.queue.history.removed := by
  constructor
  · intro left id gone
    have withdrawn : server.queue.ledger.At id .removed := gone
    have nowhere := owned.sound.elsewhere withdrawn
    have ended := left id (owned.sound.withdrawn id gone) (nowhere .waiting (by simp))
      (nowhere .running (by simp))
    exact absurd (ended.symm.trans (owned.removed id gone)) (by simp)
  · intro none id queued unqueued idle
    obtain ⟨place, there, -⟩ := owned.sound.exactly_one queued
    cases place with
    | waiting => exact absurd there unqueued
    | running => exact absurd there idle
    | finished => exact owned.finished id there
    | removed => exact absurd there (none id)

theorem Move.withdraws {setting : Setting R Sep} {server after : AppState R Sep}
    {event : Event R Sep} (move : Move setting server event after)
    (served : server.queue.Served) {id : Nat} (gone : id ∈ after.queue.history.removed) :
    id ∈ server.queue.history.removed ∨
      server.cancelling event = some id ∧ id ∈ server.queue.waiting := by
  cases move with
  | @thread index choice thread _ _ here acts =>
      rcases acts.withdraws served gone with old | ⟨waits, resume, point, -⟩
      · exact .inl old
      · exact .inr ⟨advancing_eq_some.mpr ⟨index, choice, thread, rfl, here, by rw [point]; rfl⟩,
          waits⟩
  | worker works => exact .inl (works.withdraws served ▸ gone)
  | entered | evicted | pruned | ticked => exact .inl gone

theorem Move.removed {setting : Setting R Sep} {server after : AppState R Sep}
    {event : Event R Sep} (move : Move setting server event after)
    (served : server.queue.Served) {id : Nat} (gone : id ∈ server.queue.history.removed) :
    id ∈ after.queue.history.removed := by
  rcases move.queue with same | ⟨action, step⟩
  · rwa [same]
  · rcases Queue.Inner.step_cases served step with same | ⟨work, -, -, same⟩ | ⟨job, -, same⟩ |
      ⟨work, rest, -, -, stopped, none, waiting, same⟩ | ⟨claimed, -, -, -, same⟩
    · have kept : after.queue.history.removed = _ := congrArg Ledger.removed same.ledger
      rw [kept]
      exact gone
    · have kept : after.queue.history.removed = _ := congrArg Ledger.removed same.ledger
      rw [kept]
      exact gone
    · rw [same]
      exact List.mem_append_left _ gone
    · rw [same]
      exact gone
    · rw [same]
      exact gone

variable [DecidableEq Sep]

theorem keeps_later {setting : Setting R Sep} {model : Sep} {maxDepth retainFailed : Nat}
    {ok ok' : AppState R Sep → Event R Sep → Prop} {server later : AppState R Sep}
    {P : AppState R Sep → Prop}
    (run : (AppState.system setting model maxDepth retainFailed).Reaches ok
      (.start model maxDepth retainFailed) server)
    (rest : (AppState.system setting model maxDepth retainFailed).Reaches ok' server later)
    (start : P server)
    (keep : ∀ {before after event}, Owned before → P before →
      Move setting before event after → P after) : P later :=
  rest.invariant start fun _ _ _ path holds _ done =>
    keep (owned_of_reaches (run.any.trans path.any)) holds (move_of_step done)

theorem cancelling_withdraws {setting : Setting R Sep} {server after : AppState R Sep}
    {event : Event R Sep} {id : Nat} (done : server.step setting event = some after)
    (cancels : server.cancelling event = some id) (waits : id ∈ server.queue.waiting) :
    id ∈ after.queue.history.removed := by
  obtain ⟨index, choice, thread, rfl, here, cancels⟩ := advancing_eq_some.mp cancels
  obtain ⟨moved, next, act, rfl⟩ := act_of_step here done
  unfold Point.cancelling at cancels
  split at cancels <;> cases cancels
  rename_i resume point
  have taken : moved.queue = (server.queue.cancelPending id).2 := by
    cases choice <;> simp only [AppState.act, point] at act <;> cases act <;> rfl
  change id ∈ moved.queue.history.removed
  rw [taken]
  exact List.mem_append_right _ (List.mem_filter.mpr ⟨waits, decide_eq_true rfl⟩)

/-- As long as nothing is cancelled while it waits, every job that leaves the queue has
ended, and stays so. Once something is, that job is frozen in every later state. -/
theorem leavers_are_terminal (setting : Setting R Sep) (model : Sep)
    (maxDepth retainFailed : Nat) (server : AppState R Sep)
    (run : (AppState.system setting model maxDepth retainFailed).Reaches SparesWaiting
      (.start model maxDepth retainFailed) server) :
    LeftTerminal server ∧
      (∀ id ∈ server.queue.history.accepted, server.isTerminal id = true →
        ∀ later, (AppState.system setting model maxDepth retainFailed).Reaches System.Any
          server later → later.isTerminal id = true) ∧
      ∀ event after, server.step setting event = some after → ¬ SparesWaiting server event →
        ∀ later, (AppState.system setting model maxDepth retainFailed).Reaches System.Any
          after later → ¬ LeftTerminal later := by
  have owned := owned_of_reaches run
  refine ⟨owned.leftTerminal_iff.mpr ?_, fun id queued ended later rest => ?_,
    fun event after done cancels later rest left => ?_⟩
  · refine run.invariant (P := fun server => ∀ id, id ∉ server.queue.history.removed) (by simp)
      fun before event after path none spares done id gone => ?_
    rcases (move_of_step done).withdraws (served_of_reaches path) gone with old | ⟨cancels, waits⟩
    · exact none id old
    · exact spares id cancels waits
  · have known := owned.accepted id queued
    refine (keeps_later (P := fun server => id < server.store.attempts ∧
      server.isTerminal id = true) run rest ⟨known, ended⟩ fun owned holds move => ?_).2
    exact ⟨Nat.lt_of_lt_of_le holds.1 move.carries.attempts,
      owned.stays_terminal move holds.1 holds.2⟩
  · simp only [SparesWaiting, not_forall, not_not] at cancels
    obtain ⟨id, cancels, waits⟩ := cancels
    have run' := System.Reaches.tail run.any trivial done
    have still := keeps_later (P := fun server => id ∈ server.queue.history.removed) run' rest
      (cancelling_withdraws done cancels waits)
      fun owned gone move => move.removed owned.served gone
    exact ((owned_of_reaches (run'.trans rest)).leftTerminal_iff.mp left) id still

theorem finished_upload_is_terminal :
    ∃ server : AppState Unit String, server.queue.history.finished = [1] ∧
      LeftTerminal server := by
  have finished : ∃ server : AppState Unit String,
      (AppState.system trackSetting "htdemucs" 4 60).Reaches SparesWaiting
        (.start "htdemucs" 4 60) server ∧ server.queue.history.finished = [1] :=
    System.exists_of_replay (upload 0 ++ separation) (by decide)
  obtain ⟨server, run, done⟩ := finished
  exact ⟨server, done, (leavers_are_terminal trackSetting "htdemucs" 4 60 server run).1⟩

/-- An upload is deleted by the client that made it before the worker gets to it. -/
theorem deleted_upload_is_frozen :
    ∃ server : AppState Unit String,
      (AppState.system trackSetting "htdemucs" 4 60).Reachable server ∧
        server.store.byId = [] ∧ ¬ LeftTerminal server :=
  System.exists_of_replay
    (upload 0 ++ .delete 1 0 :: List.replicate 4 (.advance 1 .plain)) (by decide)

end Stemd.Server
