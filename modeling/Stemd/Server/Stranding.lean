import Stemd.Server.Ownership

/-! Whether every job in the store still has somebody working on it.

A handler that has claimed a key must leave the job to the queue or bring it to an end.
Three of its exits do neither, and then the key stays claimed. -/

set_option autoImplicit false

namespace Stemd.Server

open Stemd.Core
open Stemd.Semantics

variable {R Sep : Type}

/-- Registered and unfinished, and neither waiting, nor running, nor with the handler that
claimed it. -/
def Stranded (server : AppState R Sep) (id : Nat) : Prop :=
  id ∈ server.store.byId ∧ server.isTerminal id = false ∧ id ∉ server.queue.waiting ∧
    server.queue.ledger.running ≠ some id ∧ handlers server id = 0

instance (server : AppState R Sep) (id : Nat) : Decidable (Stranded server id) :=
  inferInstanceAs (Decidable (_ ∧ _))

/-- The job a handler is about to end without having done anything about: the decoding of
an upload panics, its client goes away meanwhile, or a drop finds the queue full. -/
def AppState.leftBy (server : AppState R Sep) (choice : Choice) : Point R Sep → Option Nat
  | .decoding _ job => match choice with
      | .panicked | .disconnect => some job
      | _ => none
  | .submitting .drop _ job =>
      if choice = .plain ∧ server.queue.maxDepth ≤ server.queue.pending.length then some job
      else none
  | _ => none

def AppState.walksOff (server : AppState R Sep) : Event R Sep → Option Nat :=
  server.advancing server.leftBy

/-- No handler walks off from a job that is still in the store. -/
def HandsOver (server : AppState R Sep) (event : Event R Sep) : Prop :=
  ∀ job ∈ server.walksOff event, job ∉ server.store.byId

instance (server : AppState R Sep) (event : Event R Sep) : Decidable (HandsOver server event) :=
  inferInstanceAs (Decidable (∀ job ∈ server.walksOff event, _))

theorem Acts.hands_over {setting : Setting R Sep} {server after : AppState R Sep}
    {thread next : Thread R Sep} {choice : Choice} {index id : Nat}
    (acts : Acts setting server thread choice after next)
    (here : server.threads[index]? = some thread) (mine : thread.point.held = some id) :
    next.point.held = some id ∨ after.isTerminal id = true ∨
      id ∈ after.queue.waiting ∧ id ∈ after.queue.history.accepted ∨
      after = server ∧ next.point = .ended ∧
        server.walksOff (.advance index choice) = some id := by
  have written : ∀ change : Job String → Job String, (∀ job, (change job).isTerminal = true) →
      (server.change id change).isTerminal id = true := fun change ends => by
    simp [AppState.isTerminal, AppState.change, ends]
  have own : ∀ {job : Nat} {point : Point R Sep}, thread.point = point → point.held = some job →
      job = id := by
    rintro job point rfl held
    exact Option.some.inj (held.symm.trans mine)
  have held : ∀ {point : Point R Sep}, thread.point = point → point.held = none → False := by
    rintro point rfl none
    cases none.symm.trans mine
  cases acts with
  | passed passes => exact .inl (passes.held.trans mine)
  | missed request job point miss => exact .inl (own point rfl ▸ rfl)
  | answered request job entry point hit =>
      obtain rfl := own point rfl
      exact .inr (.inl (written (·.complete _ entry true) fun _ => rfl))
  | rejected request job message point =>
      obtain rfl := own point rfl
      exact .inr (.inl (written (·.fail message) fun _ => rfl))
  | refused request job full point refusal =>
      obtain rfl := own point rfl
      exact .inr (.inl (written (·.fail (queueFull full.depth)) fun _ => rfl))
  -- The three exits that leave the job as it is.
  | abandoned request job point how =>
      obtain rfl := own point rfl
      refine .inr (.inr (.inr ⟨rfl, rfl, ?_⟩))
      exact advancing_eq_some.mpr ⟨index, choice, thread, rfl, here, by
        rcases how with rfl | rfl <;> simp [AppState.leftBy, point]⟩
  | droppedRefused request job full point refusal =>
      obtain rfl := own point rfl
      refine .inr (.inr (.inr ⟨rfl, rfl, ?_⟩))
      exact advancing_eq_some.mpr ⟨index, .plain, thread, rfl, here, by
        simp [AppState.leftBy, point, (Queue.Inner.submit_error refusal).1]⟩
  | submitted via request job position queue point accepted =>
      have same := own point rfl
      subst same
      have ledger := Queue.Inner.submit_ledger accepted
      have waiting : queue.waiting = server.queue.waiting ++ [job] :=
        congrArg Ledger.waiting ledger
      have queued : queue.history.accepted = server.queue.history.accepted ++ [job] :=
        congrArg Ledger.accepted ledger
      exact .inr (.inr (.inl ⟨by simp [waiting], by simp [queued]⟩))
  | switched current switch switches => cases switches.held.1.symm.trans mine
  | identified via request point => exact (held point rfl).elim
  | joined via request key job point found => exact (held point rfl).elim
  | claimed via request key point free => exact (held point rfl).elim
  | joinedAgain job point => exact (held point rfl).elim
  | found job client point known => exact (held point rfl).elim
  | released job client point => exact (held point rfl).elim
  | called late call moved resume queue point advanced => exact (held point rfl).elim
  | removed job point => exact (held point rfl).elim

def Kept (server : AppState R Sep) : Prop :=
  ∀ id ∈ server.store.byId, server.isTerminal id = false →
    0 < handlers server id ∨ id ∈ server.queue.history.accepted

/-- What a `DELETE` has taken out of the queue it is about to take out of the store. -/
def Withdrawn (server : AppState R Sep) : Prop :=
  ∀ id ∈ server.queue.history.removed, id ∈ server.store.byId →
    ∃ thread ∈ server.threads, thread.point = .removing id

theorem Acts.removing {setting : Setting R Sep} {server after : AppState R Sep}
    {thread next : Thread R Sep} {choice : Choice} {id : Nat}
    (acts : Acts setting server thread choice after next) (point : thread.point = .removing id) :
    after.store = server.store.remove id := by
  cases acts with
  | removed job same =>
      cases same.symm.trans point
      rfl
  | passed passes =>
      rw [point] at passes
      cases passes
  | switched current switch switches =>
      rw [point] at switches
      cases switches
  | identified _ _ here | joined _ _ _ _ here _ | claimed _ _ _ here _ | answered _ _ _ here _
  | missed _ _ here _ | rejected _ _ _ here | abandoned _ _ here _ | submitted _ _ _ _ _ here _
  | refused _ _ _ here _ | droppedRefused _ _ _ here _ | joinedAgain _ here | found _ _ here _
  | released _ _ here | called _ _ _ _ _ here _ =>
      cases here.symm.trans point

theorem Kept.move {setting : Setting R Sep} {server after : AppState R Sep}
    {event : Event R Sep} (kept : Kept server) (owned : Owned server)
    (handsOver : HandsOver server event) (move : Move setting server event after) :
    Kept after := by
  have accepted : ∀ {id}, id ∈ server.queue.history.accepted →
      id ∈ after.queue.history.accepted := move.accepted owned.served
  intro id member live
  cases move with
  | @entered event point enters =>
      have some : handlers (server.spawn point) id = handlers server id := by
        have none : point.held = none := by cases enters <;> rfl
        simp [handlers, AppState.spawn, List.countP_append, none]
      rw [some]
      exact kept id member live
  | @thread index choice thread next moved here acts =>
      have sum := acts.handlers here id
      by_cases mine : thread.point.held = some id
      · rcases acts.hands_over here mine with stays | ended | ⟨-, queued⟩ | ⟨same, -, walked⟩
        · rw [if_pos mine, if_pos stays] at sum
          have one := handlers_pos.mpr ⟨thread, List.mem_of_getElem? here, mine⟩
          exact .inl (by omega)
        · exact absurd (ended.symm.trans live) (by simp)
        · exact .inr queued
        · exact absurd (same ▸ member) (handsOver id walked)
      · rw [if_neg mine] at sum
        -- Whoever had it before has it still, unless this thread has just claimed it.
        by_cases holds : next.point.held = some id
        · rw [if_pos holds] at sum
          exact .inl (by omega)
        · have before : id ∈ server.store.byId :=
            (acts.byId member).resolve_right fun fresh => holds fresh.2
          have same : moved.isTerminal id = server.isTerminal id :=
            (acts.terminal id).resolve_right fun wrote => wrote.elim mine fun fresh => holds fresh.2
          have alive : moved.isTerminal id = false := live
          rcases kept id before (same ▸ alive) with some | queued
          · exact .inl (by omega)
          · exact .inr (accepted queued)
  | worker works =>
      have store : after.store.byId = server.store.byId := by cases works <;> rfl
      have same : handlers after id = handlers server id := by rw [handlers, works.threads]; rfl
      rw [same]
      rcases works.terminal owned.served id with unchanged | busy
      · exact (kept id (store ▸ member) (unchanged ▸ live)).imp_right accepted
      · have there : server.queue.ledger.At id .running := busy
        exact .inr (accepted (owned.sound.at_accepted there))
  | evicted | ticked => exact kept id member live
  | pruned =>
      have unregisters := server.store.prune_unregisters server.cache.isEvicted server.clock
      have same : (server.store.job id).isTerminal = false := by
        rw [← unregisters.job]
        exact live
      exact kept id (unregisters.byId id member) same

theorem Withdrawn.move {setting : Setting R Sep} {server after : AppState R Sep}
    {event : Event R Sep} (withdrawn : Withdrawn server) (owned : Owned server)
    (paired : ∀ thread ∈ server.threads, thread.point.Paired)
    (move : Move setting server event after) : Withdrawn after := by
  intro id gone member
  cases move with
  | entered enters =>
      obtain ⟨thread, inside, point⟩ := withdrawn id gone member
      exact ⟨thread, List.mem_append_left _ inside, point⟩
  | @thread index choice thread next moved here acts =>
      have mine : next ∈ moved.threads.set index next := by
        refine List.mem_set ?_ next
        have same : moved.threads.length = server.threads.length := by
          cases acts <;> first | rfl | exact List.length_modify ..
        exact same ▸ (List.getElem?_eq_some_iff.mp here).1
      rcases acts.withdraws owned.served gone with
        old | ⟨-, resume, call, returned⟩
      · have known := owned.accepted id (owned.sound.withdrawn id old)
        have before : id ∈ server.store.byId :=
          (acts.byId member).resolve_right fun fresh => Nat.ne_of_lt known fresh.1
        obtain ⟨other, inside, point⟩ := withdrawn id old before
        obtain ⟨place, there⟩ := List.getElem?_of_mem inside
        by_cases same : place = index
        · -- The one to remove it has just done so.
          subst same
          cases here.symm.trans there
          have removed := acts.removing point
          rw [removed] at member
          exact absurd rfl ((JobStore.remove_byId ..).mp member).2
        · obtain ⟨t, found, stays, -⟩ := acts.bystander there same
          exact ⟨t, List.mem_of_getElem? found, stays.trans point⟩
      · have pair := paired thread (List.mem_of_getElem? here)
        rw [call] at pair
        refine ⟨next, mine, returned.trans ?_⟩
        cases resume with
        | remove job =>
            cases pair
            rfl
        | record preset => cases pair
        | exit => cases pair
  | worker works =>
      have store : after.store.byId = server.store.byId := by cases works <;> rfl
      rw [works.withdraws owned.served] at gone
      rw [works.threads]
      exact withdrawn id gone (store ▸ member)
  | evicted | ticked => exact withdrawn id gone member
  | pruned =>
      have unregisters := server.store.prune_unregisters server.cache.isEvicted server.clock
      exact withdrawn id gone (unregisters.byId id member)

theorem stranded_removed {server : AppState R Sep} {id : Nat} (owned : Owned server)
    (kept : Kept server) (stranded : Stranded server id) :
    id ∈ server.queue.history.removed := by
  obtain ⟨registered, live, unqueued, idle, unheld⟩ := stranded
  rcases kept id registered live with some | queued
  · omega
  · obtain ⟨place, there, -⟩ := owned.sound.exactly_one queued
    cases place with
    | waiting => exact absurd there unqueued
    | running => exact absurd there idle
    | finished => exact absurd ((owned.finished id there).symm.trans live) (by simp)
    | removed => exact there

theorem stranded_of_removed {server : AppState R Sep} {id : Nat} (owned : Owned server)
    (gone : id ∈ server.queue.history.removed) (registered : id ∈ server.store.byId) :
    Stranded server id := by
  have withdrawn : server.queue.ledger.At id .removed := gone
  have nowhere := owned.sound.elsewhere withdrawn
  refine ⟨registered, owned.removed id gone, nowhere .waiting (by simp),
    nowhere .running (by simp), ?_⟩
  by_contra some
  exact owned.held_nowhere (Nat.pos_of_ne_zero some) .removed gone

/-- Whoever no longer has the job it had has left it to the queue, or finds it finished or
out of the store. -/
def HandedOver (server after : AppState R Sep) : Prop :=
  ∀ (index : Nat) (thread next : Thread R Sep) (id : Nat),
    server.threads[index]? = some thread → after.threads[index]? = some next →
      thread.point.held = some id → next.point.held = some id ∨ id ∈ after.queue.waiting ∨
        after.isTerminal id = true ∨ id ∉ after.store.byId

variable [DecidableEq Sep]

theorem act_of_leftBy {setting : Setting R Sep} {server after : AppState R Sep}
    {thread next : Thread R Sep} {choice : Choice} {id : Nat}
    (done : server.act setting thread choice = some (after, next))
    (left : server.leftBy choice thread.point = some id) :
    after = server ∧ next.point = .ended ∧ thread.point.held = some id := by
  unfold AppState.leftBy at left
  split at left
  · rename_i request job here
    split at left <;> cases left <;> simp only [AppState.act, here] at done <;> cases done <;>
      exact ⟨rfl, rfl, by rw [here]; rfl⟩
  · rename_i request job here
    split at left <;> cases left
    rename_i full
    have refusal : server.queue.submit ⟨id, request, setting.output request⟩ =
        .error ⟨server.queue.pending.length⟩ := if_pos full.2
    simp only [AppState.act, here, full.1, refusal] at done
    cases done
    exact ⟨rfl, rfl, by rw [here]; rfl⟩
  · cases left

omit [DecidableEq Sep] in
theorem handed_over {setting : Setting R Sep} {server after : AppState R Sep}
    {event : Event R Sep} (handsOver : HandsOver server event)
    (move : Move setting server event after) : HandedOver server after := by
  intro index thread next id here there mine
  have still : after.threads[index]? = some thread → next.point.held = some id := fun same => by
    cases same.symm.trans there
    exact mine
  cases move with
  | entered enters =>
      refine .inl (still ?_)
      exact (List.getElem?_append_left (List.getElem?_eq_some_iff.mp here).1).trans here
  | @thread acting choice actor step moved actorHere acts =>
      by_cases same : index = acting
      · subst same
        cases actorHere.symm.trans here
        have place : index < moved.threads.length := by
          simpa using (List.getElem?_eq_some_iff.mp there).1
        have taken : next = step := by simpa [place] using there.symm
        subst taken
        rcases acts.hands_over here mine with stays | ended | queued | ⟨unchanged, -, walked⟩
        · exact .inl stays
        · exact .inr (.inr (.inl ended))
        · exact .inr (.inl queued.1)
        · exact .inr (.inr (.inr (unchanged ▸ handsOver id walked)))
      · obtain ⟨t, found, point, -⟩ := acts.bystander here same
        cases found.symm.trans there
        exact .inl (point ▸ mine)
  | worker works => exact .inl (still (works.threads ▸ here))
  | evicted | pruned | ticked => exact .inl (still here)

/-- A handler that walks off from a job in the store strands it. -/
theorem walking_off_strands {setting : Setting R Sep} {server after : AppState R Sep}
    {event : Event R Sep} {id : Nat} (owned : Owned server)
    (done : server.step setting event = some after) (left : server.walksOff event = some id)
    (registered : id ∈ server.store.byId) : Stranded after id ∧ ¬ HandedOver server after := by
  obtain ⟨index, choice, thread, rfl, here, left⟩ := advancing_eq_some.mp left
  obtain ⟨moved, next, act, rfl⟩ := act_of_step here done
  obtain ⟨rfl, ended, mine⟩ := act_of_leftBy act left
  have some := handlers_pos.mpr ⟨thread, List.mem_of_getElem? here, mine⟩
  have unqueued := owned.held_nowhere some .waiting
  have live := (owned.held id some).2.2
  have none : handlers { moved with threads := moved.threads.set index next } id = 0 := by
    have sum := (acts_of_act act).handlers here id
    have alone := owned.alone id
    have empty : next.point.held = none := by rw [ended]; rfl
    rw [if_pos mine, empty, if_neg (Option.some_ne_none id).symm] at sum
    omega
  refine ⟨⟨registered, live, unqueued, owned.held_nowhere some .running, none⟩, fun handed => ?_⟩
  have place := (List.getElem?_eq_some_iff.mp here).1
  rcases handed index thread next id here (by simp [place]) mine with
    holds | waits | terminal | absent
  · rw [ended] at holds
    cases holds
  · exact unqueued waits
  · exact absurd (terminal.symm.trans live) (by simp)
  · exact absent registered

/-- As long as no handler walks off, the only jobs nobody works on are those a `DELETE` has
taken out of the queue and is about to take out of the store. -/
theorem no_job_is_stranded (setting : Setting R Sep) (model : Sep) (maxDepth retainFailed : Nat)
    (server : AppState R Sep)
    (run : (AppState.system setting model maxDepth retainFailed).Reaches HandsOver
      (.start model maxDepth retainFailed) server) :
    ((∀ id, ¬ Stranded server id) ↔
        ∀ id ∈ server.queue.history.removed, id ∉ server.store.byId) ∧
      (∀ id, Stranded server id → ∃ thread ∈ server.threads, thread.point = .removing id) ∧
      ∀ event after, server.step setting event = some after →
        (HandsOver server event → HandedOver server after) ∧
          (¬ HandsOver server event →
            (∃ id, Stranded after id) ∧ ¬ HandedOver server after) := by
  have owned := owned_of_reaches run
  have kept : Kept server :=
    run.invariant (fun _ registered => by cases registered)
      fun before event after path kept allowed done =>
        kept.move (owned_of_reaches path) allowed (move_of_step done)
  have withdrawn : Withdrawn server :=
    run.invariant (fun _ gone => by cases gone)
      fun before event after path withdrawn _ done =>
        withdrawn.move (owned_of_reaches path) (paired_of_reaches path) (move_of_step done)
  refine ⟨⟨fun none id gone registered => none id (stranded_of_removed owned gone registered),
    fun none id stranded => none id (stranded_removed owned kept stranded) stranded.1⟩,
    fun id stranded => withdrawn id (stranded_removed owned kept stranded) stranded.1,
    fun event after done => ⟨fun handsOver => handed_over handsOver (move_of_step done),
      fun walks => ?_⟩⟩
  simp only [HandsOver, not_forall, not_not] at walks
  obtain ⟨id, left, registered⟩ := walks
  obtain ⟨stranded, lost⟩ := walking_off_strands owned done left registered
  exact ⟨⟨id, stranded⟩, lost⟩

/-- An upload left to the queue is with the worker or still waits, and nobody is stranded. -/
theorem queued_upload_is_not_stranded :
    ∃ server : AppState Unit String, server.queue.waiting = [1] ∧ ∀ id, ¬ Stranded server id := by
  have queued : ∃ server : AppState Unit String,
      (AppState.system trackSetting "htdemucs" 4 60).Reaches HandsOver
        (.start "htdemucs" 4 60) server ∧
          server.queue.waiting = [1] ∧ server.queue.history.removed = [] :=
    System.exists_of_replay (upload 0) (by decide)
  obtain ⟨server, run, waiting, removed⟩ := queued
  refine ⟨server, waiting, ?_⟩
  refine (no_job_is_stranded trackSetting "htdemucs" 4 60 server run).1.mpr fun id gone => ?_
  rw [removed] at gone
  cases gone

/-- The client of an upload goes away while it is decoded: the key is claimed for good. -/
theorem disconnect_strands_upload :
    ∃ server : AppState Unit String,
      (AppState.system trackSetting "htdemucs" 4 60).Reachable server ∧ Stranded server 1 ∧
        server.store.inFlight "htdemucs" = some 1 ∧
          server.threads.all (·.point = .ended) = true :=
  System.exists_of_replay
    (.arrive .upload () :: List.replicate 3 (.advance 0 .plain) ++ [.advance 0 .disconnect])
    (by decide)

end Stemd.Server
