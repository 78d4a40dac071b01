import Mathlib.Data.List.Count
import Stemd.Server.Moves

/-! Who answers for a job.

A job is held by the one handler that claimed it, then waits, runs and is finished, or
is withdrawn. Its stage is terminal exactly from the point at which its owner is done
with it, and nobody writes to it afterwards. -/

set_option autoImplicit false

namespace Stemd.Server

open Stemd.Core
open Stemd.Semantics

variable {R Sep : Type}

theorem countP_modify {α : Type} {p : α → Bool} {l : List α} {index : Nat} {f : α → α}
    (kept : ∀ a, p (f a) = p a) : (l.modify index f).countP p = l.countP p := by
  induction l generalizing index with
  | nil => simp
  | cons head tail ih => cases index <;> simp [List.countP_cons, kept, ih]

def handlers (server : AppState R Sep) (id : Nat) : Nat :=
  server.threads.countP fun thread => decide (thread.point.held = some id)

def AppState.isTerminal (server : AppState R Sep) (id : Nat) : Bool :=
  (server.store.job id).isTerminal

theorem read_update {α : Type} (read : Job String → α) {server after : AppState R Sep} {id : Nat}
    {change : Job String → Job String} (store : after.store = server.store.update id change)
    (kept : ∀ job, read (change job) = read job) (other : Nat) :
    read (after.store.job other) = read (server.store.job other) := by
  rw [store, JobStore.update_job]
  split
  · rename_i same
    rw [kept, same]
  · rfl

theorem isTerminal_update {server after : AppState R Sep} {id : Nat}
    {change : Job String → Job String} (store : after.store = server.store.update id change)
    (kept : ∀ job, (change job).isTerminal = job.isTerminal) (other : Nat) :
    after.isTerminal other = server.isTerminal other := read_update Job.isTerminal store kept other

theorem Acts.byId {setting : Setting R Sep} {server after : AppState R Sep}
    {thread next : Thread R Sep} {choice : Choice}
    (acts : Acts setting server thread choice after next) {id : Nat}
    (member : id ∈ after.store.byId) :
    id ∈ server.store.byId ∨ id = server.store.attempts ∧ next.point.held = some id := by
  cases acts with
  | claimed via request key point free =>
      rcases List.mem_cons.mp member with rfl | old
      · exact .inr ⟨rfl, via.owner_held _ _⟩
      · exact .inl old
  | removed job point => exact .inl ((server.store.remove_unregisters job).byId id member)
  | _ => exact .inl member

theorem Acts.terminal {setting : Setting R Sep} {server after : AppState R Sep}
    {thread next : Thread R Sep} {choice : Choice}
    (acts : Acts setting server thread choice after next) (id : Nat) :
    after.isTerminal id = server.isTerminal id ∨ thread.point.held = some id ∨
      id = server.store.attempts ∧ next.point.held = some id := by
  have written : ∀ {job : Nat} (change : Job String → Job String),
      thread.point.held = some job →
        (server.change job change).isTerminal id = server.isTerminal id ∨
          thread.point.held = some id := by
    intro job change held
    by_cases same : id = job
    · exact .inr (same ▸ held)
    · exact .inl (by simp [AppState.isTerminal, AppState.change, same])
  have mine : ∀ {job : Nat} {point : Point R Sep}, thread.point = point → point.held = some job →
      thread.point.held = some job := fun here held => here ▸ held
  cases acts with
  | claimed via request key point free =>
      by_cases fresh : id = server.store.attempts
      · exact .inr (.inr ⟨fresh, fresh ▸ via.owner_held _ _⟩)
      · exact .inl (by simp [AppState.isTerminal, fresh])
  | answered request job entry point hit =>
      exact (written (·.complete job entry true) (mine point rfl)).imp_right .inl
  | rejected request job message point =>
      exact (written (·.fail message) (mine point rfl)).imp_right .inl
  | refused request job full point refusal =>
      exact (written (·.fail (queueFull full.depth)) (mine point rfl)).imp_right .inl
  | submitted via request job position queue point accepted =>
      exact (written (·.setProgress (Queue.queuedProgress position (position + 1)))
        (mine point rfl)).imp_right .inl
  | joined via request key job point found =>
      exact .inl (isTerminal_update rfl (fun j => j.join_isTerminal) id)
  | joinedAgain job point =>
      exact .inl (isTerminal_update rfl (fun j => j.join_isTerminal) id)
  | released job client point =>
      exact .inl (isTerminal_update rfl (fun j => j.release_isTerminal) id)
  | removed job point =>
      exact .inl (congrArg (fun jobs => (jobs id).isTerminal)
        (server.store.remove_unregisters job).job)
  | _ => exact .inl rfl

theorem Works.terminal {server after : AppState R Sep} {event : WorkerEvent}
    (works : Works server event after) (served : server.queue.Served) (id : Nat) :
    after.isTerminal id = server.isTerminal id ∨ server.queue.ledger.running = some id := by
  have written : ∀ {claimed : Queue.Claimed Nat R} (change : Job String → Job String),
      server.queue.worker = .separating claimed →
        (server.change claimed.work.job change).isTerminal id = server.isTerminal id ∨
          server.queue.ledger.running = some id := by
    intro claimed change busy
    by_cases same : id = claimed.work.job
    · rw [same]
      exact .inr (congrArg (Option.map _) (served.slot claimed busy))
    · exact .inl (by simp [AppState.isTerminal, AppState.change, same])
  cases works with
  | progressed claimed progress _ busy _ _ _ => exact written (·.setProgress progress) busy
  | cancelled claimed busy _ _ => exact written Job.cancelled busy
  | spoiled claimed message busy _ _ => exact written (·.fail message) busy
  | completed claimed entry busy _ =>
      exact written (·.complete claimed.work.job entry false) busy
  | _ => exact .inl rfl

theorem Move.accepted {setting : Setting R Sep} {server after : AppState R Sep}
    {event : Event R Sep} (move : Move setting server event after)
    (served : server.queue.Served) {id : Nat} (member : id ∈ server.queue.history.accepted) :
    id ∈ after.queue.history.accepted := by
  rcases move.queue with same | ⟨action, step⟩
  · rwa [same]
  · by_cases submits : ∃ work, action = .submit work
    · obtain ⟨work, rfl⟩ := submits
      rcases Queue.Inner.step_cases served step with same | ⟨other, is, -, same⟩ | ⟨_, is, -⟩ |
        ⟨_, _, is, -⟩ | ⟨_, is, -⟩
      · have kept : after.queue.history.accepted = server.queue.history.accepted :=
          congrArg Ledger.accepted same.ledger
        rwa [kept]
      · have more : after.queue.history.accepted = server.queue.history.accepted ++ [other.job] :=
          congrArg Ledger.accepted same.ledger
        rw [more]
        exact List.mem_append_left _ member
      all_goals cases is
    · rwa [Queue.Inner.accepted_step served step fun work is => submits ⟨work, is⟩]

theorem Acts.withdraws {setting : Setting R Sep} {server after : AppState R Sep}
    {thread next : Thread R Sep} {choice : Choice}
    (acts : Acts setting server thread choice after next) (served : server.queue.Served)
    {id : Nat} (gone : id ∈ after.queue.history.removed) :
    id ∈ server.queue.history.removed ∨ id ∈ server.queue.waiting ∧ ∃ resume,
      thread.point = .calling (.cancelPending id) resume ∧
        next.point = AppState.resume (.cancelReturned id true) resume := by
  cases acts with
  | called late call moved resume queue point advanced =>
      rcases Queue.Call.advance_removed served advanced gone with
        old | ⟨rfl, rfl, waits⟩
      · exact .inl old
      · exact .inr ⟨waits, resume, point, rfl⟩
  | submitted via request job position queue point accepted =>
      have kept : queue.history.removed = server.queue.history.removed :=
        congrArg Ledger.removed (Queue.Inner.submit_ledger accepted)
      exact .inl (kept ▸ gone)
  | _ => exact .inl gone

theorem Works.withdraws {server after : AppState R Sep} {event : WorkerEvent}
    (works : Works server event after) (served : server.queue.Served) :
    after.queue.history.removed = server.queue.history.removed := by
  have kept : ∀ {action : Queue.Action Nat R Sep}, server.queue.step action = some after.queue →
      (∀ work, action ≠ .submit work) → (∀ id, action ≠ .cancelPending id) →
        after.queue.history.removed = server.queue.history.removed := by
    intro action step submits cancels
    rcases Queue.Inner.step_cases served step with same | ⟨work, is, -⟩ | ⟨id, is, -⟩ |
      ⟨work, rest, -, -, stopped, none, waiting, same⟩ | ⟨claimed, -, -, -, same⟩
    · exact congrArg Ledger.removed same.ledger
    · exact absurd is (submits work)
    · exact absurd is (cancels id)
    · rw [same]
      rfl
    · rw [same]
      rfl
  cases works with
  | next done | built done | answered done | cleared _ done =>
      exact kept done (by simp) (by simp)
  | _ => rfl

structure Owned (server : AppState R Sep) : Prop where
  served : server.queue.Served
  sound : server.queue.ledger.Sound
  accepted : ∀ id ∈ server.queue.history.accepted, id < server.store.attempts
  alone : ∀ id, handlers server id ≤ 1
  held : ∀ id, 0 < handlers server id → id < server.store.attempts ∧
    id ∉ server.queue.history.accepted ∧ server.isTerminal id = false
  waiting : ∀ id ∈ server.queue.waiting, server.isTerminal id = false
  running : ∀ id, server.queue.ledger.running = some id →
    (server.isTerminal id = true ↔ server.phase = .settled)
  finished : ∀ id ∈ server.queue.history.finished, server.isTerminal id = true
  removed : ∀ id ∈ server.queue.history.removed, server.isTerminal id = false

theorem handlers_pos {server : AppState R Sep} {id : Nat} :
    0 < handlers server id ↔ ∃ thread ∈ server.threads, thread.point.held = some id := by
  simp [handlers, List.countP_pos_iff]

theorem Acts.handlers {setting : Setting R Sep} {server after : AppState R Sep}
    {thread next : Thread R Sep} {choice : Choice} {index : Nat}
    (acts : Acts setting server thread choice after next)
    (here : server.threads[index]? = some thread) (id : Nat) :
    Server.handlers { after with threads := after.threads.set index next } id +
        (if thread.point.held = some id then 1 else 0) =
      Server.handlers server id + (if next.point.held = some id then 1 else 0) := by
  have counted : ∀ (threads : List (Thread R Sep)) (mine : Thread R Sep),
      threads[index]? = some mine → mine.point = thread.point →
        threads.countP (fun t => decide (t.point.held = some id)) = Server.handlers server id →
          (threads.set index next).countP (fun t => decide (t.point.held = some id)) +
              (if thread.point.held = some id then 1 else 0) =
            Server.handlers server id + (if next.point.held = some id then 1 else 0) := by
    intro threads mine mineHere point count
    have sum := countP_set_add (fun t : Thread R Sep => decide (t.point.held = some id)) next
      mineHere
    rw [count, point] at sum
    simpa using sum
  cases acts with
  | released job client point =>
      refine counted _ (if client = index then { thread with letGo := true } else thread) ?_ ?_ ?_
      · simp only [AppState.release, AppState.change, List.getElem?_modify, here]
        split <;> rfl
      · split <;> rfl
      · exact countP_modify fun _ => rfl
  | _ => exact counted _ thread here rfl rfl

/-- While the queue stands still, only its running job can become terminal. -/
theorem Owned.still {server after : AppState R Sep} (owned : Owned server)
    (queue : after.queue = server.queue)
    (attempts : server.store.attempts ≤ after.store.attempts)
    (elsewhere : ∀ place id, place ≠ .running → server.queue.ledger.At id place →
      after.isTerminal id = server.isTerminal id)
    (running : ∀ id, server.queue.ledger.running = some id →
      (after.isTerminal id = true ↔ after.phase = .settled))
    (alone : ∀ id, handlers after id ≤ 1)
    (held : ∀ id, 0 < handlers after id → id < after.store.attempts ∧
      id ∉ server.queue.history.accepted ∧ after.isTerminal id = false) : Owned after := by
  refine ⟨queue ▸ owned.served, queue ▸ owned.sound, fun id member => ?_, alone,
    fun id some => queue ▸ held id some, fun id member => ?_, fun id busy => ?_,
    fun id member => ?_, fun id member => ?_⟩ <;> first | rw [queue] at member | rw [queue] at busy
  · exact Nat.lt_of_lt_of_le (owned.accepted id member) attempts
  · rw [elsewhere .waiting id (by simp) member]
    exact owned.waiting id member
  · exact running id busy
  · rw [elsewhere .finished id (by simp) member]
    exact owned.finished id member
  · rw [elsewhere .removed id (by simp) member]
    exact owned.removed id member

theorem Owned.keep {server after : AppState R Sep} (owned : Owned server)
    (queue : after.queue = server.queue) (phase : after.phase = server.phase)
    (attempts : server.store.attempts ≤ after.store.attempts)
    (terminal : ∀ id < server.store.attempts, after.isTerminal id = server.isTerminal id)
    (fewer : ∀ id, handlers after id ≤ handlers server id) : Owned after := by
  have known : ∀ place {id}, server.queue.ledger.At id place →
      after.isTerminal id = server.isTerminal id := fun _ _ there =>
    terminal _ (owned.accepted _ (owned.sound.at_accepted there))
  refine owned.still queue attempts (fun place id _ there => known place there)
    (fun id busy => ?_) (fun id => (fewer id).trans (owned.alone id)) fun id some => ?_
  · rw [known .running busy, phase]
    exact owned.running id busy
  · obtain ⟨old, outside, live⟩ := owned.held id (Nat.lt_of_lt_of_le some (fewer id))
    exact ⟨Nat.lt_of_lt_of_le old attempts, outside, by rwa [terminal id old]⟩

theorem Owned.queueStep {server after : AppState R Sep} {action : Queue.Action Nat R Sep}
    (owned : Owned server) (store : after.store = server.store)
    (done : server.queue.step action = some after.queue)
    (other : ∀ work, action ≠ .submit work) (unfinished : action ≠ .finished)
    (phase : after.phase = server.phase ∧ action ≠ .next ∨
      after.phase = .separating ∧ action = .next)
    (fewer : ∀ id, handlers after id ≤ handlers server id) : Owned after := by
  have terminal : ∀ id, after.isTerminal id = server.isTerminal id := fun id => by
    rw [AppState.isTerminal, store]
    rfl
  have accepted := Queue.Inner.accepted_step owned.served done other
  have served := owned.served.step done
  have sound := Queue.Inner.sound_step owned.served owned.sound done
    fun work is => absurd is (other work)
  have idle : action = .next → server.queue.running = none := by
    rintro rfl
    apply owned.served.idle
    intro claimed busy
    simp [Queue.Inner.step, busy] at done
  -- Jobs only leave the waiting ones: to run, as the phase starts over, or withdrawn.
  have rest : (∀ id ∈ after.queue.waiting, id ∈ server.queue.waiting) ∧
      (∀ id, after.queue.ledger.running = some id →
        server.queue.ledger.running = some id ∧ after.phase = server.phase ∨
          id ∈ server.queue.waiting ∧ after.phase = .separating) ∧
      after.queue.history.finished = server.queue.history.finished ∧
      ∀ id ∈ after.queue.history.removed, id ∈ server.queue.history.removed ∨
        id ∈ server.queue.waiting := by
    rcases Queue.Inner.step_cases owned.served done with same | ⟨work, is, -, -⟩ | ⟨id, is, same⟩ |
      ⟨work, others, is, -, stopped, none, waiting, same⟩ | ⟨claimed, is, -, -, -⟩
    · have ledger := same.ledger
      have waits : after.queue.waiting = server.queue.waiting := congrArg Ledger.waiting ledger
      have gone : after.queue.history.removed = server.queue.history.removed :=
        congrArg Ledger.removed ledger
      refine ⟨fun id member => waits ▸ member, fun id busy => .inl ?_,
        congrArg Ledger.finished ledger, fun id member => .inl (gone ▸ member)⟩
      · have before : server.queue.ledger.running = some id := ledger ▸ busy
        refine ⟨before, ?_⟩
        rcases phase with ⟨kept, -⟩ | ⟨-, next⟩
        · exact kept
        · simp [Queue.Inner.ledger, idle next] at before
    · exact absurd is (other work)
    · rw [same]
      have kept := phase.resolve_right fun next => by rw [is] at next; cases next.2
      refine ⟨fun other member => ?_, fun other busy => .inl ⟨busy, kept.1⟩, rfl,
        fun other member => ?_⟩
      · obtain ⟨work, inside, rfl⟩ := List.mem_map.mp member
        exact List.mem_map_of_mem (List.mem_filter.mp inside).1
      · exact (List.mem_append.mp member).imp_right fun gone => (List.mem_filter.mp gone).1
    · rw [same]
      have now := phase.resolve_left fun old => old.2 is
      have head : work.job ∈ server.queue.waiting := by simp [Queue.Inner.waiting, waiting]
      refine ⟨fun other member => ?_, fun other busy => .inr ?_, rfl,
        fun other member => .inl member⟩
      · rw [Queue.Inner.waiting, waiting]
        exact List.mem_cons_of_mem _ member
      · exact ⟨Option.some.inj busy ▸ head, now.1⟩
    · exact absurd is unfinished
  obtain ⟨waiting, running, finished, removed⟩ := rest
  refine ⟨served, sound, fun id member => ?_, fun id => (fewer id).trans (owned.alone id),
    fun id some => ?_, fun id member => ?_, fun id busy => ?_, fun id member => ?_,
    fun id member => ?_⟩
  · rw [store]
    exact owned.accepted id (accepted ▸ member)
  · obtain ⟨old, outside, live⟩ := owned.held id (Nat.lt_of_lt_of_le some (fewer id))
    exact ⟨by rwa [store], by rwa [accepted], by rwa [terminal]⟩
  · rw [terminal]
    exact owned.waiting id (waiting id member)
  · rcases running id busy with ⟨before, kept⟩ | ⟨taken, begun⟩
    · rw [terminal, kept]
      exact owned.running id before
    · rw [terminal, begun, owned.waiting id taken]
      exact ⟨by simp, by simp⟩
  · rw [terminal]
    exact owned.finished id (finished ▸ member)
  · rw [terminal]
    rcases removed id member with old | gone
    · exact owned.removed id old
    · exact owned.waiting id gone

theorem Owned.held_nowhere {server : AppState R Sep} (owned : Owned server) {id : Nat}
    (some : 0 < handlers server id) (place : Ledger.Place) :
    ¬ server.queue.ledger.At id place :=
  fun there => (owned.held id some).2.1 (owned.sound.at_accepted there)

/-- The handler that has a job makes it terminal and lets go of it. -/
theorem Owned.settle {server after : AppState R Sep} {id : Nat} (owned : Owned server)
    (change : Job String → Job String) (mine : 0 < handlers server id)
    (store : after.store = server.store.update id change)
    (ends : ∀ job, (change job).isTerminal = true) (queue : after.queue = server.queue)
    (phase : after.phase = server.phase)
    (fewer : ∀ other, handlers after other ≤ handlers server other)
    (gone : handlers after id = 0) : Owned after := by
  have terminal : ∀ other, after.isTerminal other =
      if other = id then true else server.isTerminal other := fun other => by
    rw [AppState.isTerminal, store, JobStore.update_job]
    split
    · exact ends _
    · rfl
  -- The queue has never had this job, so no place in its account is touched.
  have elsewhere : ∀ place {other}, server.queue.ledger.At other place →
      after.isTerminal other = server.isTerminal other := by
    intro place other there
    rw [terminal, if_neg]
    rintro rfl
    exact owned.held_nowhere mine place there
  have attempts : after.store.attempts = server.store.attempts := by rw [store]; rfl
  refine owned.still queue attempts.ge (fun place other _ there => elsewhere place there)
    (fun other busy => ?_) (fun other => (fewer other).trans (owned.alone other))
    fun other some => ?_
  · rw [elsewhere .running busy, phase]
    exact owned.running other busy
  · have different : other ≠ id := by
      rintro rfl
      omega
    rw [attempts, terminal, if_neg different]
    exact owned.held other (Nat.lt_of_lt_of_le some (fewer other))

theorem Owned.claim {server after : AppState R Sep} (owned : Owned server) (key : String)
    (jobs : after.store.job =
      Function.update server.store.job server.store.attempts (.fresh key server.clock))
    (attempts : after.store.attempts = server.store.attempts + 1)
    (queue : after.queue = server.queue) (phase : after.phase = server.phase)
    (more : ∀ id, handlers after id =
      handlers server id + if id = server.store.attempts then 1 else 0) : Owned after := by
  have terminal : ∀ id, after.isTerminal id =
      if id = server.store.attempts then false else server.isTerminal id := fun id => by
    rw [AppState.isTerminal, jobs, Function.update_apply]
    split <;> rfl
  -- The number is past every job that is held or was ever accepted.
  have unseen : handlers server server.store.attempts = 0 := by
    by_contra held
    exact Nat.lt_irrefl _ (owned.held _ (Nat.pos_of_ne_zero held)).1
  have known : ∀ place {id}, server.queue.ledger.At id place →
      after.isTerminal id = server.isTerminal id := by
    intro place id there
    have old := owned.accepted id (owned.sound.at_accepted there)
    rw [terminal, if_neg (Nat.ne_of_lt old)]
  refine owned.still queue (attempts ▸ Nat.le_succ _) (fun place id _ there => known place there)
    (fun id busy => ?_) (fun id => ?_) fun id some => ?_
  · rw [known .running busy, phase]
    exact owned.running id busy
  · rw [more]
    split
    · rename_i fresh
      rw [fresh, unseen]
    · exact owned.alone id
  · rw [more] at some
    rw [attempts, terminal]
    split at some
    · rename_i fresh
      subst fresh
      exact ⟨Nat.lt_succ_self _, fun member => Nat.lt_irrefl _ (owned.accepted _ member),
        if_pos rfl⟩
    · rename_i other
      obtain ⟨old, outside, live⟩ := owned.held id some
      exact ⟨Nat.lt_succ_of_lt old, outside, by rwa [if_neg other]⟩

/-- The handler that has a job leaves it to the queue. -/
theorem Owned.submit {server after : AppState R Sep} {position : Nat} (owned : Owned server)
    (work : Queue.QueuedWork Nat R) (change : Job String → Job String)
    (mine : 0 < handlers server work.job)
    (store : after.store = server.store.update work.job change)
    (live : ∀ job, (change job).isTerminal = false)
    (accepted : server.queue.submit work = .ok (position, after.queue))
    (phase : after.phase = server.phase)
    (fewer : ∀ id, handlers after id ≤ handlers server id)
    (gone : handlers after work.job = 0) : Owned after := by
  obtain ⟨known, outside, wasLive⟩ := owned.held work.job mine
  have step := Queue.Inner.step_submit accepted
  have ledger := Queue.Inner.submit_ledger accepted
  have history : after.queue.history.accepted = server.queue.history.accepted ++ [work.job] :=
    congrArg Ledger.accepted ledger
  have waiting : after.queue.waiting = server.queue.waiting ++ [work.job] :=
    congrArg Ledger.waiting ledger
  have done : after.queue.history.finished = server.queue.history.finished :=
    congrArg Ledger.finished ledger
  have removed : after.queue.history.removed = server.queue.history.removed :=
    congrArg Ledger.removed ledger
  have terminal : ∀ id, after.isTerminal id = server.isTerminal id := fun id => by
    rw [AppState.isTerminal, store, JobStore.update_job]
    split
    · rename_i same
      rw [live, same, wasLive]
    · rfl
  refine ⟨owned.served.step step, ledger ▸ owned.sound.accept outside, fun id member => ?_,
    fun id => (fewer id).trans (owned.alone id), fun id some => ?_, fun id member => ?_,
    fun id busy => ?_, fun id member => ?_, fun id member => ?_⟩
  · rw [history] at member
    rw [store]
    rcases List.mem_append.mp member with old | new
    · exact owned.accepted id old
    · exact List.mem_singleton.mp new ▸ known
  · have different : id ≠ work.job := by
      rintro rfl
      omega
    obtain ⟨old, out, still⟩ := owned.held id (Nat.lt_of_lt_of_le some (fewer id))
    refine ⟨by rw [store]; exact old, ?_, by rwa [terminal]⟩
    rw [history, List.mem_append, List.mem_singleton]
    exact not_or.mpr ⟨out, different⟩
  · rw [waiting] at member
    rw [terminal]
    rcases List.mem_append.mp member with old | new
    · exact owned.waiting id old
    · exact List.mem_singleton.mp new ▸ wasLive
  · rw [ledger] at busy
    rw [terminal, phase]
    exact owned.running id busy
  · rw [terminal]
    exact owned.finished id (done ▸ member)
  · rw [terminal]
    exact owned.removed id (removed ▸ member)

theorem Owned.write {server after : AppState R Sep} {claimed : Queue.Claimed Nat R}
    (owned : Owned server) (change : Job String → Job String)
    (busy : server.queue.worker = .separating claimed)
    (store : after.store = server.store.update claimed.work.job change)
    (queue : after.queue = server.queue) (threads : after.threads = server.threads)
    (ends : ∀ job, (change job).isTerminal = true ↔ after.phase = .settled) : Owned after := by
  have runs : server.queue.ledger.running = some claimed.work.job :=
    congrArg (Option.map _) (owned.served.slot claimed busy)
  have same : ∀ id, handlers after id = handlers server id := fun id => by
    rw [handlers, threads]
    rfl
  have terminal : ∀ id, id ≠ claimed.work.job → after.isTerminal id = server.isTerminal id := by
    intro id different
    rw [AppState.isTerminal, store, JobStore.update_job, if_neg different]
    rfl
  have here : server.queue.ledger.At claimed.work.job .running := runs
  have elsewhere : ∀ place {id}, place ≠ .running → server.queue.ledger.At id place →
      after.isTerminal id = server.isTerminal id := by
    intro place id other there
    apply terminal
    rintro rfl
    exact owned.sound.elsewhere here place other there
  have attempts : after.store.attempts = server.store.attempts := by rw [store]; rfl
  refine owned.still queue attempts.ge (fun place id other there => elsewhere place other there)
    (fun id is => ?_) (fun id => same id ▸ owned.alone id) fun id some => ?_
  · rw [runs] at is
    cases is
    rw [AppState.isTerminal, store, JobStore.update_job, if_pos rfl]
    exact ends _
  · rw [same] at some
    have different : id ≠ claimed.work.job := by
      rintro rfl
      exact owned.held_nowhere some .running runs
    rw [attempts, terminal id different]
    exact owned.held id some

theorem Owned.clear {server after : AppState R Sep} (owned : Owned server)
    (settled : server.phase = .settled) (done : server.queue.step .finished = some after.queue)
    (store : after.store = server.store) (threads : after.threads = server.threads) :
    Owned after := by
  have same : ∀ id, handlers after id = handlers server id := fun id => by
    rw [handlers, threads]
    rfl
  have terminal : ∀ id, after.isTerminal id = server.isTerminal id := fun id => by
    rw [AppState.isTerminal, store]
    rfl
  have accepted := Queue.Inner.accepted_step owned.served done (by simp)
  have sound := Queue.Inner.sound_step owned.served owned.sound done (by simp)
  have served := owned.served.step done
  simp only [Queue.Inner.step] at done
  split at done
  · rename_i claimed busy
    have runs : server.queue.ledger.running = some claimed.work.job :=
      congrArg (Option.map _) (owned.served.slot claimed busy)
    have queue := (Option.some.inj done).symm
    refine ⟨served, sound, fun id member => ?_, fun id => same id ▸ owned.alone id,
      fun id some => ?_, fun id member => ?_, fun id is => ?_, fun id member => ?_,
      fun id member => ?_⟩
    · rw [store]
      exact owned.accepted id (accepted ▸ member)
    · rw [store, accepted, terminal]
      exact owned.held id (same id ▸ some)
    · rw [queue] at member
      rw [terminal]
      exact owned.waiting id member
    · rw [queue] at is
      cases is
    · rw [queue] at member
      rw [terminal]
      rcases List.mem_append.mp member with old | new
      · exact owned.finished id old
      · rw [List.mem_singleton.mp new]
        exact (owned.running _ runs).mpr settled
    · rw [queue] at member
      rw [terminal]
      exact owned.removed id member
  · cases done

theorem Owned.act {setting : Setting R Sep} {server after : AppState R Sep}
    {thread next : Thread R Sep} {choice : Choice} {index : Nat} (owned : Owned server)
    (here : server.threads[index]? = some thread)
    (acts : Acts setting server thread choice after next) :
    Owned { after with threads := after.threads.set index next } := by
  have count := acts.handlers here
  have mine : ∀ {id}, thread.point.held = some id → 0 < Server.handlers server id := fun held =>
    handlers_pos.mpr ⟨thread, List.mem_of_getElem? here, held⟩
  -- What is left to show of the handlers: that this one took nothing on ..
  have fewer : (∀ id, next.point.held = some id → thread.point.held = some id) → ∀ id,
      Server.handlers { after with threads := after.threads.set index next } id ≤
        Server.handlers server id := by
    intro less id
    have sum := count id
    by_cases holds : next.point.held = some id
    · rw [if_pos holds, if_pos (less id holds)] at sum
      omega
    · rw [if_neg holds] at sum
      omega
  -- .. and, where it passes a job on, that nobody else had it.
  have gone : ∀ {id}, thread.point.held = some id → next.point.held = none →
      Server.handlers { after with threads := after.threads.set index next } id = 0 := by
    intro id held empty
    have sum := count id
    have alone := owned.alone id
    rw [if_pos held, empty, if_neg (Option.some_ne_none id).symm] at sum
    omega
  have nothing : next.point.held = none → ∀ id,
      Server.handlers { after with threads := after.threads.set index next } id ≤
        Server.handlers server id := fun empty =>
    fewer fun id holds => by simp [empty] at holds
  cases acts with
  | passed passes =>
      exact owned.keep rfl rfl (Nat.le_refl _) (fun _ _ => rfl)
        (fewer fun id holds => passes.held ▸ holds)
  | switched current switch switches =>
      exact owned.keep rfl rfl (Nat.le_refl _) (fun _ _ => rfl) (nothing switches.held.2)
  | identified via request point =>
      exact owned.keep rfl rfl (Nat.le_refl _) (fun _ _ => rfl) (nothing (via.keyed_held _ _))
  | joined via request key job point found =>
      exact owned.keep rfl rfl (Nat.le_refl _)
        (fun id _ => isTerminal_update rfl (fun j => j.join_isTerminal) id)
        (nothing (via.joiner_held _))
  | claimed via request key point free =>
      refine owned.claim key rfl rfl rfl rfl fun id => ?_
      have sum := count id
      have before : thread.point.held = none := by rw [point]; rfl
      rw [before, if_neg (Option.some_ne_none id).symm, Nat.add_zero, Via.owner_held] at sum
      rw [sum]
      simp only [Option.some.injEq, eq_comm]
  | answered request job entry point hit =>
      have held : thread.point.held = some job := by rw [point]; rfl
      exact owned.settle (·.complete job entry true) (mine held) rfl (fun _ => rfl) rfl rfl
        (nothing rfl) (gone held rfl)
  | missed request job point miss =>
      refine owned.keep rfl rfl (Nat.le_refl _) (fun _ _ => rfl) (fewer fun id holds => ?_)
      rw [point]
      exact holds
  | rejected request job message point =>
      have held : thread.point.held = some job := by rw [point]; rfl
      exact owned.settle (·.fail message) (mine held) rfl (fun _ => rfl) rfl rfl (nothing rfl)
        (gone held rfl)
  | abandoned request job point how =>
      exact owned.keep rfl rfl (Nat.le_refl _) (fun _ _ => rfl) (nothing rfl)
  | submitted via request job position queue point accepted =>
      have held : thread.point.held = some job := by rw [point]; rfl
      exact owned.submit ⟨job, request, setting.output request⟩
        (·.setProgress (Queue.queuedProgress position (position + 1))) (mine held) rfl
        (fun _ => rfl) accepted rfl (nothing (via.queued_held _)) (gone held (via.queued_held _))
  | refused request job full point refusal =>
      have held : thread.point.held = some job := by rw [point]; rfl
      exact owned.settle (·.fail (queueFull full.depth)) (mine held) rfl (fun _ => rfl) rfl rfl
        (nothing rfl) (gone held rfl)
  | droppedRefused request job full point refusal =>
      exact owned.keep rfl rfl (Nat.le_refl _) (fun _ _ => rfl) (nothing rfl)
  | joinedAgain job point =>
      exact owned.keep rfl rfl (Nat.le_refl _)
        (fun id _ => isTerminal_update rfl (fun j => j.join_isTerminal) id) (nothing rfl)
  | found job client point known =>
      exact owned.keep rfl rfl (Nat.le_refl _) (fun _ _ => rfl) (nothing rfl)
  | released job client point =>
      refine owned.keep rfl rfl (Nat.le_refl _)
        (fun id _ => isTerminal_update rfl (fun j => j.release_isTerminal) id) (nothing ?_)
      dsimp only
      split <;> rfl
  | called late call moved resume queue point advanced =>
      have empty := nothing (AppState.resumes moved resume).held
      rcases Queue.Call.advance_inner advanced with same | ⟨action, step, callers, -⟩
      · exact owned.keep same rfl (Nat.le_refl _) (fun _ _ => rfl) empty
      · refine owned.queueStep rfl step ?_ ?_ (.inl ⟨rfl, ?_⟩) empty
        · rintro work rfl
          cases callers
        · rintro rfl
          cases callers
        · rintro rfl
          cases callers
  | removed job point =>
      have unregisters := server.store.remove_unregisters job
      refine owned.keep rfl rfl (Nat.le_of_eq unregisters.attempts.symm) (fun id _ => ?_)
        (nothing rfl)
      exact congrArg (fun jobs => (jobs id).isTerminal) unregisters.job

theorem Owned.work {server after : AppState R Sep} {event : WorkerEvent} (owned : Owned server)
    (works : Works server event after) : Owned after := by
  cases works with
  | next done =>
      exact owned.queueStep rfl done (by simp) (by simp) (.inr ⟨rfl, rfl⟩) fun _ => Nat.le_refl _
  | built done =>
      exact owned.queueStep rfl done (by simp) (by simp) (.inl ⟨rfl, by simp⟩)
        fun _ => Nat.le_refl _
  | answered done =>
      exact owned.queueStep rfl done (by simp) (by simp) (.inl ⟨rfl, by simp⟩)
        fun _ => Nat.le_refl _
  | progressed claimed progress phase busy before now live =>
      refine owned.write (·.setProgress progress) busy rfl rfl rfl fun job => ?_
      rw [Job.setProgress_isTerminal, live]
      rcases now with rfl | rfl <;> simp
  | cancelled claimed busy before raised =>
      exact owned.write Job.cancelled busy rfl rfl rfl fun _ => ⟨fun _ => rfl, fun _ => rfl⟩
  | spoiled claimed message busy before how =>
      exact owned.write (·.fail message) busy rfl rfl rfl fun _ => ⟨fun _ => rfl, fun _ => rfl⟩
  | written claimed busy before =>
      have runs : server.queue.ledger.running = some claimed.work.job :=
        congrArg (Option.map _) (owned.served.slot claimed busy)
      refine ⟨owned.served, owned.sound, owned.accepted, owned.alone, owned.held, owned.waiting,
        fun id is => ?_, owned.finished, owned.removed⟩
      have open' := owned.running id is
      rw [before] at open'
      refine ⟨fun terminal => ?_, by simp⟩
      cases open'.mp terminal
  | completed claimed entry busy before =>
      exact owned.write (·.complete claimed.work.job entry false) busy rfl rfl rfl
        fun _ => ⟨fun _ => rfl, fun _ => rfl⟩
  | cleared before done => exact owned.clear before done rfl rfl

theorem Owned.move {setting : Setting R Sep} {server after : AppState R Sep}
    {event : Event R Sep} (owned : Owned server) (move : Move setting server event after) :
    Owned after := by
  cases move with
  | @entered event point enters =>
      refine owned.keep rfl rfl (Nat.le_refl _) (fun _ _ => rfl) fun id => ?_
      have none : point.held = none := by cases enters <;> rfl
      simp [handlers, AppState.spawn, List.countP_append, none]
  | thread here acts => exact owned.act here acts
  | worker works => exact owned.work works
  | evicted key => exact owned.keep rfl rfl (Nat.le_refl _) (fun _ _ => rfl) fun _ => Nat.le_refl _
  | pruned =>
      have unregisters := server.store.prune_unregisters server.cache.isEvicted server.clock
      refine owned.keep rfl rfl (Nat.le_of_eq unregisters.attempts.symm) (fun id _ => ?_)
        fun _ => Nat.le_refl _
      exact congrArg (fun jobs => (jobs id).isTerminal) unregisters.job
  | ticked => exact owned.keep rfl rfl (Nat.le_refl _) (fun _ _ => rfl) fun _ => Nat.le_refl _

/-- A job that has ended is never written to again. -/
theorem Owned.stays_terminal {setting : Setting R Sep} {server after : AppState R Sep}
    {event : Event R Sep} (owned : Owned server) (move : Move setting server event after)
    {id : Nat} (known : id < server.store.attempts) (ended : server.isTerminal id = true) :
    after.isTerminal id = true := by
  cases move with
  | @thread index choice thread next moved here acts =>
      rcases acts.terminal id with same | mine | ⟨fresh, -⟩
      · exact same.trans ended
      · have some := handlers_pos.mpr ⟨thread, List.mem_of_getElem? here, mine⟩
        exact absurd (ended.symm.trans (owned.held id some).2.2) (by simp)
      · exact absurd fresh (Nat.ne_of_lt known)
  | worker works =>
      rcases works.terminal owned.served id with same | runs
      · exact same.trans ended
      · have settled := (owned.running id runs).mp ended
        cases works with
        | progressed _ _ _ _ before _ _ => cases settled.symm.trans before
        | cancelled _ _ before _ => cases settled.symm.trans before
        | spoiled _ _ _ before _ =>
            rcases before with before | before <;> cases settled.symm.trans before
        | completed _ _ _ before => cases settled.symm.trans before
        | _ => exact ended
  | entered | evicted | ticked => exact ended
  | pruned =>
      have unregisters := server.store.prune_unregisters server.cache.isEvicted server.clock
      exact (congrArg (fun jobs => (jobs id).isTerminal) unregisters.job).trans ended

theorem owned_start (model : Sep) (maxDepth retainFailed : Nat) :
    Owned (.start model maxDepth retainFailed : AppState R Sep) where
  served := Queue.Inner.start_served model maxDepth
  sound := ⟨List.nodup_nil, rfl, by simp [Ledger.empty]⟩
  accepted := by simp
  alone := fun _ => Nat.zero_le _
  held := fun _ some => by cases some
  waiting := by simp [Queue.Inner.waiting]
  running := by simp [Ledger.empty]
  finished := by simp
  removed := by simp

theorem owned_of_reaches [DecidableEq Sep] {setting : Setting R Sep} {model : Sep}
    {maxDepth retainFailed : Nat} {ok : AppState R Sep → Event R Sep → Prop}
    {server : AppState R Sep}
    (run : (AppState.system setting model maxDepth retainFailed).Reaches ok
      (.start model maxDepth retainFailed) server) : Owned server :=
  run.invariant (owned_start model maxDepth retainFailed)
    fun _ _ _ _ owned _ done => owned.move (move_of_step done)

end Stemd.Server
