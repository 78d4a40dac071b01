import Stemd.Server.Waiters

/-! What a `DELETE` can do to somebody who still wants the job.

Releasing, cancelling and removing are separate steps. The count protects whoever holds
the job when it is released, but not a claim that joins it afterwards. -/

set_option autoImplicit false

namespace Stemd.Server

open Stemd.Core
open Stemd.Semantics

variable {R Sep : Type}

def Point.deletes : Point R Sep → Option Nat
  | .calling _ (.remove job) | .removing job => some job
  | _ => none

/-- A job is taken out of the queue or the store, or told to stop while it runs. -/
def Harmed (server after : AppState R Sep) (id : Nat) : Prop :=
  id ∈ server.queue.waiting ∧ id ∉ after.queue.waiting ∨
    id ∈ server.store.byId ∧ id ∉ after.store.byId ∨
      ∃ running, server.queue.running = some running ∧ running.id = id ∧
        after.queue.flags[running.cancel]? ≠ server.queue.flags[running.cancel]?

/-- No claim joins a job between its release to nobody and its removal. -/
def JoinsInTime (server : AppState R Sep) (event : Event R Sep) : Prop :=
  ∀ job ∈ server.joining event, ∀ thread ∈ server.threads, thread.point.deletes ≠ some job

instance (server : AppState R Sep) (event : Event R Sep) : Decidable (JoinsInTime server event) :=
  inferInstanceAs (Decidable (∀ job ∈ server.joining event, _))

def KeepsClear (server : AppState R Sep) (event : Event R Sep) : Prop :=
  LetsGoOnce server event ∧ JoinsInTime server event

instance (server : AppState R Sep) (event : Event R Sep) : Decidable (KeepsClear server event) :=
  inferInstanceAs (Decidable (_ ∧ _))

/-- Nobody holds more of a job than it counts, and nobody holds what is being deleted. -/
structure Protected (server : AppState R Sep) : Prop where
  counted : ∀ id, server.Known id → holders server id ≤ server.waiters id
  doomed : ∀ thread ∈ server.threads, ∀ id, thread.point.deletes = some id →
    server.Known id ∧ holders server id = 0

theorem Passes.deletes {server : AppState R Sep} {point next : Point R Sep}
    (passes : Passes server point next) :
    next.deletes = none := by
  cases passes <;> rfl

theorem Switches.deletes {server : AppState R Sep} {point next : Point R Sep} {current : Sep}
    {switch : SwitchState Sep} (switches : Switches server point next current switch) :
    next.deletes = none := by
  cases switches <;> rfl

theorem Resumes.deletes {call : Queue.Call Nat Sep} {after : Resume Sep} {point : Point R Sep}
    {id : Nat} (resumes : Resumes call after point) (deletes : point.deletes = some id) :
    after = .remove id := by
  cases resumes with
  | calling _ =>
      cases after <;> cases deletes
      rfl
  | removing job =>
      cases deletes
      rfl
  | _ => cases deletes

theorem Acts.deletes {setting : Setting R Sep} {server after : AppState R Sep}
    {thread next : Thread R Sep} {choice : Choice} {id : Nat}
    (acts : Acts setting server thread choice after next) (deletes : next.point.deletes = some id) :
    thread.point.deletes = some id ∨ choice = .plain ∧ after.waiters id = 0 ∧
      ∃ client, thread.point = .releasing id client := by
  cases acts with
  | passed passes => cases passes.deletes.symm.trans deletes
  | switched current switch switches => cases switches.deletes.symm.trans deletes
  | identified via _ _ | joined via _ _ _ _ _ | claimed via _ _ _ _ | submitted via _ _ _ _ _ _ =>
      cases via <;> cases deletes
  | released job client point =>
      dsimp only at deletes
      split at deletes <;> cases deletes
      rename_i left
      refine .inr ⟨rfl, ?_, client, point⟩
      exact ((waiters_change server id id (·.release)).trans (if_pos rfl)).trans
        (Nat.eq_zero_of_not_pos left)
  | called late call moved resume queue point advanced =>
      have same := (AppState.resumes _ _).deletes deletes
      subst same
      exact .inl (by rw [point]; rfl)
  | _ => cases deletes

theorem Protected.move {setting : Setting R Sep} {server after : AppState R Sep}
    {event : Event R Sep} (protection : Protected server) (requested : Requested server)
    (clear : KeepsClear server event) (move : Move setting server event after) :
    Protected after := by
  have counted : ∀ id, after.Known id → holders after id ≤ after.waiters id := by
    intro id known
    by_cases old : server.Known id
    · have before := protection.counted id old
      cases move.accounts requested clear.1 old with
      | untouched waiters holders => omega
      | joined found waiters holders => omega
      | rejoined again waiters holders => omega
      | released waiters holders => omega
    · have one := move.claims requested known old
      omega
  -- What is being deleted has no holder, and only a claim could give it one.
  have still : ∀ {id}, (∃ thread ∈ server.threads, thread.point.deletes = some id) →
      after.Known id ∧ holders after id = 0 := by
    rintro id ⟨thread, inside, deletes⟩
    obtain ⟨known, none⟩ := protection.doomed thread inside id deletes
    refine ⟨known.carry move.carries, ?_⟩
    cases move.accounts requested clear.1 known with
    | untouched waiters holders => omega
    | joined found => exact absurd deletes (clear.2 id found thread inside)
    | rejoined again waiters holders => omega
    | released waiters holders => omega
  refine ⟨counted, fun t member id deletes => ?_⟩
  cases move.origin member with
  | stayed inside point => exact still ⟨_, inside, point ▸ deletes⟩
  | entered enters =>
      rcases t with ⟨point, holds, letGo⟩
      cases enters <;> cases deletes
  | @acted index choice thread moved is here acts same =>
      subst is same
      rcases acts.deletes deletes with before | ⟨rfl, none, client, point⟩
      · exact still ⟨thread, List.mem_of_getElem? here, before⟩
      · obtain ⟨requester, there, clings⟩ := clear.1 (id, client)
          (advancing_eq_some.mpr ⟨index, .plain, thread, rfl, here, by rw [point]; rfl⟩)
        simp only [Thread.clings, Bool.and_eq_true, decide_eq_true_eq] at clings
        have known := (requested.holds requester (List.mem_of_getElem? there) id clings.1).carry
          move.carries
        exact ⟨known, Nat.le_zero.mp (none ▸ counted id known)⟩

theorem not_harmed {server after : AppState R Sep} {id : Nat}
    (queue : after.queue = server.queue) (byId : after.store.byId = server.store.byId) :
    ¬ Harmed server after id := by
  rintro (⟨waits, gone⟩ | ⟨registered, gone⟩ | ⟨running, -, -, raised⟩)
  · exact gone (queue ▸ waits)
  · exact gone (byId ▸ registered)
  · exact raised (by rw [queue])

theorem harmed_of_cancels {server after : AppState R Sep} {call next : Queue.Call Nat Sep}
    {queue : Queue.Inner Nat R Sep} {late : Bool} {job id : Nat} (harmed : Harmed server after id)
    (cancels : call.cancels = some job)
    (advanced : call.advance late server.queue = some (queue, next))
    (same : after.queue = queue) (byId : after.store.byId = server.store.byId) : id = job := by
  subst same
  by_contra other
  -- A waiting job goes only with its own id, and only the running one's flag is raised.
  rcases harmed with ⟨waits, gone⟩ | ⟨registered, gone⟩ | ⟨running, runs, same, raised⟩
  · cases call <;> simp only [Queue.Call.cancels, reduceCtorEq, Option.some.injEq] at cancels <;>
      subst cancels <;> simp only [Queue.Call.advance, reduceCtorEq, Option.some.injEq] at advanced
    · apply gone
      obtain ⟨work, inside, own⟩ := List.mem_map.mp waits
      rw [← (Prod.mk.inj advanced).1]
      exact List.mem_map.mpr ⟨work, List.mem_filter.mpr ⟨inside, decide_eq_true (own ▸ other)⟩, own⟩
    · apply gone
      rw [← (Prod.mk.inj advanced).1, (Queue.Inner.cancelRunning_frame ..).1]
      exact waits
  · exact gone (byId ▸ registered)
  · cases call <;> simp only [Queue.Call.cancels, reduceCtorEq, Option.some.injEq] at cancels <;>
      subst cancels <;> simp only [Queue.Call.advance, reduceCtorEq, Option.some.injEq] at advanced
    · exact raised (by rw [← (Prod.mk.inj advanced).1]; rfl)
    · apply raised
      rw [← (Prod.mk.inj advanced).1, Queue.Inner.cancelRunning, runs]
      simp only [same, if_neg other]

theorem Acts.harms {setting : Setting R Sep} {server after : AppState R Sep}
    {thread next : Thread R Sep} {choice : Choice} {index id : Nat}
    (acts : Acts setting server thread choice after next) (paired : thread.point.Paired)
    (delete : thread.point.isDelete = true)
    (harmed : Harmed server { after with threads := after.threads.set index next } id) :
    thread.point.deletes = some id := by
  have harmless : ∀ {point : Point R Sep}, thread.point = point → point.isDelete = false →
      thread.point.deletes = some id := by
    rintro point rfl not
    cases not.symm.trans delete
  cases acts with
  | passed passes => exact absurd harmed (not_harmed rfl rfl)
  | switched current switch switches => exact absurd harmed (not_harmed rfl rfl)
  | found job client point known => exact absurd harmed (not_harmed rfl rfl)
  | released job client point => exact absurd harmed (not_harmed rfl rfl)
  | removed job point =>
      rw [point]
      rcases harmed with ⟨waits, gone⟩ | ⟨registered, gone⟩ | ⟨running, -, -, raised⟩
      · exact absurd waits gone
      · have same : id = job := by
          by_contra other
          exact gone ((JobStore.remove_byId ..).mpr ⟨registered, other⟩)
        rw [same]
        rfl
      · exact absurd rfl raised
  | called late call moved resume queue point advanced =>
      rw [point] at paired delete ⊢
      cases resume with
      | remove job =>
          have same : id = job := harmed_of_cancels harmed paired advanced rfl rfl
          rw [same]
          rfl
      | record preset => cases delete
      | exit => cases delete
  | identified _ _ here | joined _ _ _ _ here _ | claimed _ _ _ here _ | answered _ _ _ here _
  | missed _ _ here _ | rejected _ _ _ here | abandoned _ _ here _ | submitted _ _ _ _ _ here _
  | refused _ _ _ here _ | droppedRefused _ _ _ here _ | joinedAgain _ here =>
      exact harmless here rfl

variable [DecidableEq Sep]

theorem joining_claims {setting : Setting R Sep} {server after : AppState R Sep}
    {event : Event R Sep} {job : Nat} (done : server.step setting event = some after)
    (joins : server.joining event = some job) :
    ∃ index thread next, server.threads[index]? = some thread ∧
      thread.point.isUnclaimed = true ∧ thread.point.deletes = none ∧
        next.holds = some job ∧ next.letGo = thread.letGo ∧
          after.threads = server.threads.set index next := by
  obtain ⟨key, claims, found⟩ := Option.bind_eq_some_iff.mp joins
  obtain ⟨index, choice, thread, rfl, here, claims⟩ := advancing_eq_some.mp claims
  obtain ⟨moved, next, act, rfl⟩ := act_of_step here done
  unfold Point.claims at claims
  split at claims
  · rename_i via request key' point
    split at claims <;> cases claims
    rename_i plain
    subst plain
    have joined := JobStore.claim_found server.clock found
    refine ⟨index, thread, next, here, by rw [point]; rfl, by rw [point]; rfl, ?_⟩
    cases via <;> simp only [AppState.act, point, joined] at act <;> cases act <;>
      exact ⟨rfl, rfl, rfl⟩
  · cases claims

/-- As long as each `DELETE` is its requester's first and no claim joins what is being
deleted, no `DELETE` harms anybody who still holds the job. -/
theorem deletes_harm_no_holder (setting : Setting R Sep) (model : Sep)
    (maxDepth retainFailed : Nat) (server : AppState R Sep)
    (run : (AppState.system setting model maxDepth retainFailed).Reaches KeepsClear
      (.start model maxDepth retainFailed) server) :
    (∀ index choice after thread, server.step setting (.advance index choice) = some after →
      server.threads[index]? = some thread → thread.point.isDelete = true →
        ∀ id, Harmed server after id →
          ∀ requester ∈ server.threads, requester.clings id = false) ∧
      ∀ event after job, server.step setting event = some after →
        server.joining event = some job → ¬ JoinsInTime server event →
          (∃ requester ∈ after.threads, requester.clings job = true) ∧
            ∃ thread ∈ after.threads, thread.point.deletes = some job := by
  have protection : Protected server := by
    refine run.invariant (P := Protected) ⟨fun id known => ?_, by simp⟩
      fun before event after path protection clear done => ?_
    · exact absurd (Nat.lt_of_lt_of_le known.2 known.1) (Nat.lt_irrefl _)
    · exact protection.move (requested_of_reaches (fun _ _ => And.left) path) clear
        (move_of_step done)
  have paired := paired_of_reaches run
  have requested := requested_of_reaches (fun _ _ => And.left) run
  refine ⟨fun index choice after thread done here delete id harmed requester inside => ?_,
    fun event after job done joins late => ?_⟩
  · obtain ⟨moved, next, act, rfl⟩ := act_of_step here done
    have member := List.mem_of_getElem? here
    have doomed := (acts_of_act act).harms (paired thread member) delete harmed
    have none := (protection.doomed thread member id doomed).2
    simpa using List.countP_eq_zero.mp none requester inside
  · simp only [JoinsInTime, joins, Option.mem_def, Option.some.injEq, forall_eq', not_forall,
      not_not] at late
    obtain ⟨doomed, inside, deletes⟩ := late
    obtain ⟨index, thread, next, here, unclaimed, clear, holds, letGo, threads⟩ :=
      joining_claims done joins
    have free := (requested.unclaimed thread (List.mem_of_getElem? here) unclaimed).2
    rw [threads]
    refine ⟨⟨next, List.mem_set (List.getElem?_eq_some_iff.mp here).1 next, ?_⟩, doomed, ?_,
      deletes⟩
    · simp [Thread.clings, holds, letGo, free]
    · obtain ⟨place, there⟩ := List.getElem?_of_mem inside
      have apart : index ≠ place := by
        rintro rfl
        cases here.symm.trans there
        cases clear.symm.trans deletes
      exact List.mem_of_getElem? ((List.getElem?_set_ne apart).trans there)

/-- Two uploads of one track, the first of which lets go. -/
theorem first_delete_harms_nobody :
    ∃ server : AppState Unit String, (server.threads[2]?).any (·.point.isDelete) = true ∧
      ∀ after, server.step trackSetting (.advance 2 .plain) = some after →
        ¬ Harmed server after 1 := by
  have shared : ∃ server : AppState Unit String,
      (AppState.system trackSetting "htdemucs" 4 60).Reaches KeepsClear
        (.start "htdemucs" 4 60) server ∧
          (server.threads[2]?).any (·.point.isDelete) = true ∧
            server.threads.any (·.clings 1) = true :=
    System.exists_of_replay
      (upload 0 ++ .arrive .upload () :: List.replicate 2 (.advance 1 .plain) ++
      [.delete 1 1, .advance 2 .plain]) (by decide)
  obtain ⟨server, run, delete, clings⟩ := shared
  obtain ⟨thread, here, is⟩ := (Option.any_eq_true _ _).mp delete
  obtain ⟨requester, inside, holds⟩ := List.any_eq_true.mp clings
  refine ⟨server, delete, fun after done harmed => ?_⟩
  have loose := (deletes_harm_no_holder trackSetting "htdemucs" 4 60 server run).1 2 .plain after
    thread done here is 1 harmed requester inside
  cases loose.symm.trans holds

/-- A second upload joins a job between its release to nobody and its removal, and the
`DELETE` of the first takes it out of the queue. -/
theorem delete_cancels_late_joiner :
    ∃ server after : AppState Unit String,
      (AppState.system trackSetting "htdemucs" 4 60).Reaches LetsGoOnce
        (.start "htdemucs" 4 60) server ∧
          server.step trackSetting (.advance 1 .plain) = some after ∧
            (server.threads[1]?).any (·.point.isDelete) = true ∧ Harmed server after 1 ∧
              ∃ requester ∈ server.threads, requester.clings 1 = true := by
  have late : ∃ server : AppState Unit String,
      (AppState.system trackSetting "htdemucs" 4 60).Reaches LetsGoOnce
        (.start "htdemucs" 4 60) server ∧
          ((server.step trackSetting (.advance 1 .plain)).any fun after =>
            decide (1 ∈ server.queue.waiting ∧ 1 ∉ after.queue.waiting)) = true ∧
            (server.threads[1]?).any (·.point.isDelete) = true ∧
              ∃ requester ∈ server.threads, requester.clings 1 = true :=
    System.exists_of_replay (upload 0 ++ .delete 1 0 :: List.replicate 2 (.advance 1 .plain) ++
      .arrive .upload () :: List.replicate 2 (.advance 2 .plain)) (by decide)
  obtain ⟨server, run, taken, delete, joined⟩ := late
  obtain ⟨after, done, gone⟩ := (Option.any_eq_true _ _).mp taken
  exact ⟨server, after, run, done, delete, .inl (of_decide_eq_true gone), joined⟩

end Stemd.Server
