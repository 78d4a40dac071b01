import Stemd.Server.Ownership

/-! Who waits for a job, by its own count and by what its requesters did.

A claim that joins counts its requester. A window drop then calls `join` as well, and so
is counted twice. -/

set_option autoImplicit false

namespace Stemd.Server

open Stemd.Core
open Stemd.Semantics

variable {R Sep : Type}

def AppState.waiters (server : AppState R Sep) (id : Nat) : Nat := (server.store.job id).waiters

def Thread.clings (thread : Thread R Sep) (id : Nat) : Bool :=
  decide (thread.holds = some id) && !thread.letGo

def holders (server : AppState R Sep) (id : Nat) : Nat :=
  server.threads.countP (·.clings id)

def Point.isUnclaimed : Point R Sep → Bool
  | .arriving _ _ | .probing _ _ | .claiming _ _ _ | .finding _ _ | .releasing _ _ => true
  | _ => false

def Point.releases : Point R Sep → Option (Nat × Nat)
  | .releasing job client => some (job, client)
  | _ => none

def AppState.releasing (server : AppState R Sep) : Event R Sep → Option (Nat × Nat) :=
  server.advancing fun _ point => point.releases

/-- A `DELETE` is in the name of a requester that holds the job and has not let go. -/
def LetsGoOnce (server : AppState R Sep) (event : Event R Sep) : Prop :=
  ∀ release ∈ server.releasing event, ∃ requester ∈ server.threads[release.2]?,
    requester.clings release.1 = true

instance (server : AppState R Sep) (event : Event R Sep) : Decidable (LetsGoOnce server event) :=
  inferInstanceAs (Decidable (∀ release ∈ server.releasing event, _))

def Point.rejoins : Point R Sep → Option Nat
  | .joining job => some job
  | _ => none

def AppState.rejoining (server : AppState R Sep) : Event R Sep → Option Nat :=
  server.advancing fun _ point => point.rejoins

def Point.claims (choice : Choice) : Point R Sep → Option String
  | .claiming _ _ key => if choice = .plain then some key else none
  | _ => none

def AppState.joining (server : AppState R Sep) (event : Event R Sep) : Option Nat :=
  (server.advancing Point.claims event).bind server.store.inFlight

def AppState.Known (server : AppState R Sep) (id : Nat) : Prop :=
  1 ≤ id ∧ id < server.store.attempts

instance (server : AppState R Sep) (id : Nat) : Decidable (server.Known id) :=
  inferInstanceAs (Decidable (_ ∧ _))

structure Requested (server : AppState R Sep) : Prop where
  numbered : 1 ≤ server.store.attempts
  registered : ∀ id ∈ server.store.byId, server.Known id
  holds : ∀ thread ∈ server.threads, ∀ id, thread.holds = some id → server.Known id
  unclaimed : ∀ thread ∈ server.threads, thread.point.isUnclaimed = true →
    thread.holds = none ∧ thread.letGo = false
  rejoins : ∀ thread ∈ server.threads, ∀ id, thread.point.rejoins = some id →
    thread.holds = some id

theorem Requested.inFlight {server : AppState R Sep} (requested : Requested server)
    {key : String} {id : Nat} (found : server.store.inFlight key = some id) : server.Known id :=
  requested.registered id (JobStore.inFlight_eq_some.mp found).2.1

inductive Accounts (server after : AppState R Sep) (event : Event R Sep) (id : Nat) : Prop where
  | untouched (waiters : after.waiters id = server.waiters id)
      (same : holders after id = holders server id)
  | joined (found : server.joining event = some id)
      (waiters : after.waiters id = server.waiters id + 1)
      (same : holders after id = holders server id + 1)
  | rejoined (again : server.rejoining event = some id)
      (waiters : after.waiters id = server.waiters id + 1)
      (same : holders after id = holders server id)
  | released (waiters : after.waiters id = server.waiters id - 1)
      (same : holders after id + 1 = holders server id)

theorem countP_modify_add {α : Type} (p : α → Bool) {l : List α} {index : Nat} {old : α}
    (f : α → α) (here : l[index]? = some old) :
    (l.modify index f).countP p + (if p old then 1 else 0) =
      l.countP p + (if p (f old) then 1 else 0) := by
  have same : l.modify index f = l.set index (f old) := by
    apply List.ext_getElem?
    intro place
    rw [List.getElem?_modify, List.getElem?_set]
    by_cases here' : index = place
    · obtain ⟨inside, rfl⟩ := List.getElem?_eq_some_iff.mp here
      simp [← here', inside]
    · simp [here']
  rw [same]
  exact countP_set_add p (f old) here

theorem waiters_change (server : AppState R Sep) (job id : Nat) (change : Job String → Job String) :
    (server.change job change).waiters id =
      if id = job then (change (server.store.job job)).waiters else server.waiters id := by
  rw [AppState.waiters, AppState.change, JobStore.update_job]
  split <;> rfl

theorem waiters_kept (server : AppState R Sep) (job id : Nat) (change : Job String → Job String)
    (kept : ∀ job, (change job).waiters = job.waiters) :
    (server.change job change).waiters id = server.waiters id := by
  rw [waiters_change, kept]
  split
  · rename_i same
    rw [same]
    rfl
  · rfl

theorem Acts.accounts {setting : Setting R Sep} {server after : AppState R Sep}
    {thread next : Thread R Sep} {choice : Choice} {index : Nat}
    (acts : Acts setting server thread choice after next) (requested : Requested server)
    (here : server.threads[index]? = some thread)
    (once : LetsGoOnce server (.advance index choice)) {id : Nat} (known : server.Known id) :
    Accounts server { after with threads := after.threads.set index next }
      (.advance index choice) id := by
  have unclaimed := requested.unclaimed thread (List.mem_of_getElem? here)
  have sum := countP_set_add (·.clings id) next here
  -- The acting thread's own part of the count: as before, or what it takes up.
  have unmoved : (∀ id, next.clings id = thread.clings id) →
      (server.threads.set index next).countP (·.clings id) = holders server id := fun same => by
    rw [same] at sum
    exact Nat.add_right_cancel sum
  have taken : thread.holds = none → (server.threads.set index next).countP (·.clings id) =
      holders server id + if next.clings id then 1 else 0 := fun free => by
    have loose : thread.clings id = false := by simp [Thread.clings, free]
    rw [loose] at sum
    exact sum
  have still : ∀ {moved : AppState R Sep}, moved.threads = server.threads →
      (∀ id, next.clings id = thread.clings id) → moved.waiters id = server.waiters id →
        Accounts server { moved with threads := moved.threads.set index next }
          (.advance index choice) id :=
    fun threads same waiters => .untouched waiters (by rw [holders, threads]; exact unmoved same)
  -- A release takes its part from another thread, which stands elsewhere in the list.
  have behind : ∀ {client : Nat} {requester : Thread R Sep},
      server.threads[client]? = some requester → client ≠ index →
        next.clings id = thread.clings id →
          ((server.threads.modify client fun t => { t with letGo := true }).set index next).countP
              (·.clings id) + (if requester.clings id then 1 else 0) = holders server id := by
    intro client requester there apart same
    have others := countP_modify_add (·.clings id) (fun t => { t with letGo := true }) there
    have own := countP_set_add (·.clings id) next
      (((List.getElem?_modify_ne (fun t => { t with letGo := true }) _ apart)).trans here)
    have gone : ({ requester with letGo := true } : Thread R Sep).clings id = false := by
      simp [Thread.clings]
    rw [gone] at others
    rw [same] at own
    exact (congrArg (· + _) (Nat.add_right_cancel own)).trans others
  cases acts with
  | joined via request key job point found =>
      have free := (unclaimed (by rw [point]; rfl)).1
      have letGo := (unclaimed (by rw [point]; rfl)).2
      by_cases mine : id = job
      · subst mine
        apply Accounts.joined
        · refine Option.bind_eq_some_iff.mpr ⟨key, ?_, found⟩
          exact advancing_eq_some.mpr ⟨index, .plain, thread, rfl, here, by rw [point]; rfl⟩
        · exact (waiters_change server id id (·.join)).trans (if_pos rfl)
        · exact (taken free).trans (by simp [Thread.clings, letGo])
      · refine .untouched ((waiters_change server job id (·.join)).trans (if_neg mine)) ?_
        exact (taken free).trans (by simp [Thread.clings, Ne.symm mine])
  | claimed via request key point free =>
      have none := (unclaimed (by rw [point]; rfl)).1
      have old : id ≠ server.store.attempts := Nat.ne_of_lt known.2
      apply Accounts.untouched
      · exact congrArg Job.waiters (Function.update_of_ne old ..)
      · exact (taken none).trans (by simp [Thread.clings, old.symm])
  | joinedAgain job point =>
      by_cases mine : id = job
      · subst mine
        exact .rejoined
          (advancing_eq_some.mpr ⟨index, .plain, thread, rfl, here, by rw [point]; rfl⟩)
          ((waiters_change server id id (·.join)).trans (if_pos rfl)) (unmoved fun _ => rfl)
      · exact still rfl (fun _ => rfl) ((waiters_change server job id (·.join)).trans (if_neg mine))
  | released job client point =>
      obtain ⟨requester, there, clings⟩ := once (job, client)
        (advancing_eq_some.mpr ⟨index, .plain, thread, rfl, here, by rw [point]; rfl⟩)
      have none := (unclaimed (by rw [point]; rfl)).1
      have apart : client ≠ index := by
        rintro rfl
        cases here.symm.trans there
        simp [Thread.clings, none] at clings
      have left := behind there apart rfl
      have mine : requester.holds = some job := by
        simp only [Thread.clings, Bool.and_eq_true, decide_eq_true_eq] at clings
        exact clings.1
      have waiters := waiters_change server job id (·.release)
      by_cases same : id = job
      · subst same
        rw [if_pos clings] at left
        exact .released (waiters.trans (if_pos rfl)) left
      · have other : requester.clings id = false := by simp [Thread.clings, mine, Ne.symm same]
        rw [other] at left
        exact .untouched (waiters.trans (if_neg same)) left
  | answered request job entry point hit =>
      exact still rfl (fun _ => rfl)
        (waiters_kept server job id (·.complete job entry true) fun _ => rfl)
  | rejected request job message point =>
      exact still rfl (fun _ => rfl) (waiters_kept server job id (·.fail message) fun _ => rfl)
  | refused request job full point refusal =>
      exact still rfl (fun _ => rfl)
        (waiters_kept server job id (·.fail (queueFull full.depth)) fun _ => rfl)
  | submitted via request job position queue point accepted =>
      exact still rfl (fun _ => rfl) (waiters_kept server job id
        (·.setProgress (Queue.queuedProgress position (position + 1))) fun _ => rfl)
  | removed job point =>
      exact still rfl (fun _ => rfl)
        (congrArg (fun jobs => (jobs id).waiters) (server.store.remove_unregisters job).job)
  | _ => exact still rfl (fun _ => rfl) rfl

theorem AppState.Known.carry {server after : AppState R Sep} {id : Nat} (known : server.Known id)
    (carries : Carries server.store after.store) : after.Known id :=
  ⟨known.1, Nat.lt_of_lt_of_le known.2 carries.attempts⟩

theorem Passes.isUnclaimed {server : AppState R Sep} {point next : Point R Sep}
    (passes : Passes server point next)
    (still : next.isUnclaimed = true) : point.isUnclaimed = true := by
  cases passes <;> first | rfl | cases still

theorem Switches.isUnclaimed {server : AppState R Sep} {point next : Point R Sep} {current : Sep}
    {switch : SwitchState Sep} (switches : Switches server point next current switch) :
    next.isUnclaimed = false := by
  cases switches <;> rfl

theorem Resumes.isUnclaimed {call : Queue.Call Nat Sep} {after : Resume Sep} {point : Point R Sep}
    (resumes : Resumes call after point) : point.isUnclaimed = false := by cases resumes <;> rfl

theorem Acts.isUnclaimed {setting : Setting R Sep} {server after : AppState R Sep}
    {thread next : Thread R Sep} {choice : Choice}
    (acts : Acts setting server thread choice after next) (still : next.point.isUnclaimed = true) :
    thread.point.isUnclaimed = true ∧ next.holds = thread.holds ∧ next.letGo = thread.letGo := by
  cases acts with
  | passed passes => exact ⟨passes.isUnclaimed still, rfl, rfl⟩
  | switched current switch switches => cases switches.isUnclaimed.symm.trans still
  | identified via request point => exact ⟨by rw [point]; rfl, rfl, rfl⟩
  | found job client point known => exact ⟨by rw [point]; rfl, rfl, rfl⟩
  | joined via request key job point found => cases via <;> cases still
  | claimed via request key point free => cases via <;> cases still
  | submitted via request job position queue point accepted => cases via <;> cases still
  | released job client point =>
      dsimp only at still
      split at still <;> cases still
  | called late call moved resume queue point advanced =>
      cases (AppState.resumes _ _).isUnclaimed.symm.trans still
  | _ => cases still

theorem Passes.rejoins {server : AppState R Sep} {point next : Point R Sep}
    (passes : Passes server point next) :
    next.rejoins = none := by
  cases passes <;> rfl

theorem Switches.rejoins {server : AppState R Sep} {point next : Point R Sep} {current : Sep}
    {switch : SwitchState Sep} (switches : Switches server point next current switch) :
    next.rejoins = none := by
  cases switches <;> rfl

theorem Resumes.rejoins {call : Queue.Call Nat Sep} {after : Resume Sep} {point : Point R Sep}
    (resumes : Resumes call after point) : point.rejoins = none := by cases resumes <;> rfl

theorem Acts.rejoins {setting : Setting R Sep} {server after : AppState R Sep}
    {thread next : Thread R Sep} {choice : Choice} {id : Nat}
    (acts : Acts setting server thread choice after next) (again : next.point.rejoins = some id) :
    next.holds = some id := by
  cases acts with
  | passed passes => cases passes.rejoins.symm.trans again
  | switched current switch switches => cases switches.rejoins.symm.trans again
  | joined via request key job point found =>
      cases via with
      | upload => cases again
      | drop =>
          cases again
          rfl
  | identified via _ _ | claimed via _ _ _ _ | submitted via _ _ _ _ _ _ =>
      cases via <;> cases again
  | released job client point =>
      dsimp only at again
      split at again <;> cases again
  | called late call moved resume queue point advanced =>
      cases (AppState.resumes _ _).rejoins.symm.trans again
  | _ => cases again

theorem Requested.act {setting : Setting R Sep} {server after : AppState R Sep}
    {thread next : Thread R Sep} {choice : Choice} {index : Nat} (requested : Requested server)
    (acts : Acts setting server thread choice after next)
    (here : server.threads[index]? = some thread)
    (once : LetsGoOnce server (.advance index choice)) :
    Requested { after with threads := after.threads.set index next } := by
  have carries := acts.carries
  have mine := List.mem_of_getElem? here
  have numbered := Nat.le_trans requested.numbered carries.attempts
  refine ⟨numbered, fun id member => ?_, fun t member id holds => ?_,
    fun t member unclaimed => ?_, fun t member id again => ?_⟩
  · rcases acts.byId member with old | ⟨fresh, held⟩
    · exact (requested.registered id old).carry carries
    · cases acts with
      | claimed via request key point free =>
          rw [fresh]
          exact ⟨requested.numbered, Nat.lt_succ_self _⟩
      | removed job point =>
          exact (requested.registered id
            ((server.store.remove_unregisters job).byId id member)).carry carries
      | _ => exact (requested.registered id member).carry carries
  · rcases acts.mem_threads index t member with rfl | ⟨old, inside, -, same⟩
    · cases acts with
      | joined via request key job point found =>
          cases holds
          exact (requested.inFlight found).carry carries
      | claimed via request key point free =>
          cases holds
          exact ⟨requested.numbered, Nat.lt_succ_self _⟩
      | _ => exact (requested.holds thread mine id holds).carry carries
    · exact (requested.holds old inside id (same ▸ holds)).carry carries
  · obtain ⟨place, found⟩ := List.getElem?_of_mem member
    by_cases own : place = index
    · subst own
      have inside := (List.getElem?_eq_some_iff.mp found).1
      have same : t = next := by simpa [List.length_set ▸ inside] using found.symm
      subst same
      obtain ⟨before, holds, letGo⟩ := acts.isUnclaimed unclaimed
      rw [holds, letGo]
      exact requested.unclaimed thread mine before
    · rw [List.getElem?_set_ne (Ne.symm own)] at found
      cases acts with
      | released job client point =>
          obtain ⟨requester, there, clings⟩ := once (job, client)
            (advancing_eq_some.mpr ⟨index, .plain, thread, rfl, here, by rw [point]; rfl⟩)
          simp only [AppState.release, AppState.change, List.getElem?_modify] at found
          obtain ⟨old, was, same⟩ := Option.map_eq_some_iff.mp found
          split at same
          · -- The one who lets go holds the job, so it has claimed.
            rename_i who
            subst who same
            have free := (requested.unclaimed old (List.mem_of_getElem? was) unclaimed).1
            cases there.symm.trans was
            simp [Thread.clings, free] at clings
          · subst same
            exact requested.unclaimed old (List.mem_of_getElem? was) unclaimed
      | _ => exact requested.unclaimed t (List.mem_of_getElem? found) unclaimed
  · rcases acts.mem_threads index t member with rfl | ⟨old, inside, point, holds⟩
    · exact acts.rejoins again
    · exact holds.trans (requested.rejoins old inside id (point ▸ again))

theorem Requested.move {setting : Setting R Sep} {server after : AppState R Sep}
    {event : Event R Sep} (requested : Requested server) (move : Move setting server event after)
    (once : LetsGoOnce server event) : Requested after := by
  have carries := move.carries
  cases move with
  | entered enters =>
      refine ⟨requested.numbered, requested.registered, fun t member id holds => ?_,
        fun t member unclaimed => ?_, fun t member id again => ?_⟩
      · rcases List.mem_append.mp member with old | new
        · exact requested.holds t old id holds
        · rw [List.mem_singleton.mp new] at holds
          cases holds
      · rcases List.mem_append.mp member with old | new
        · exact requested.unclaimed t old unclaimed
        · rw [List.mem_singleton.mp new]
          exact ⟨rfl, rfl⟩
      · rcases List.mem_append.mp member with old | new
        · exact requested.rejoins t old id again
        · rw [List.mem_singleton.mp new] at again
          cases enters <;> cases again
  | thread here acts => exact requested.act acts here once
  | worker works =>
      have byId : after.store.byId = server.store.byId := by cases works <;> rfl
      refine ⟨Nat.le_trans requested.numbered carries.attempts,
        fun id member => (requested.registered id (byId ▸ member)).carry carries,
        fun t member id holds => ?_, fun t member => ?_, fun t member => ?_⟩
      · exact (requested.holds t (works.threads ▸ member) id holds).carry carries
      · exact requested.unclaimed t (works.threads ▸ member)
      · exact requested.rejoins t (works.threads ▸ member)
  | evicted | ticked =>
      exact ⟨requested.numbered, requested.registered, requested.holds, requested.unclaimed,
        requested.rejoins⟩
  | pruned =>
      have unregisters := server.store.prune_unregisters server.cache.isEvicted server.clock
      exact ⟨Nat.le_trans requested.numbered carries.attempts,
        fun id member => (requested.registered id (unregisters.byId id member)).carry carries,
        fun t member id holds => (requested.holds t member id holds).carry carries,
        requested.unclaimed, requested.rejoins⟩

theorem Move.accounts {setting : Setting R Sep} {server after : AppState R Sep}
    {event : Event R Sep} (move : Move setting server event after) (requested : Requested server)
    (once : LetsGoOnce server event) {id : Nat} (known : server.Known id) :
    Accounts server after event id := by
  cases move with
  | entered enters =>
      exact .untouched rfl (by
        simp [holders, AppState.spawn, List.countP_append, Thread.clings])
  | thread here acts => exact acts.accounts requested here once known
  | worker works =>
      have same : holders after id = holders server id := by rw [holders, works.threads]; rfl
      refine .untouched ?_ same
      cases works with
      | progressed claimed progress _ _ _ _ _ =>
          exact waiters_kept server claimed.work.job id (·.setProgress progress) fun _ => rfl
      | cancelled claimed _ _ _ =>
          exact waiters_kept server claimed.work.job id Job.cancelled fun _ => rfl
      | spoiled claimed message _ _ _ =>
          exact waiters_kept server claimed.work.job id (·.fail message) fun _ => rfl
      | completed claimed entry _ _ =>
          exact waiters_kept server claimed.work.job id
            (·.complete claimed.work.job entry false) fun _ => rfl
      | _ => rfl
  | evicted | ticked => exact .untouched rfl rfl
  | pruned =>
      have unregisters := server.store.prune_unregisters server.cache.isEvicted server.clock
      exact .untouched (congrArg (fun jobs => (jobs id).waiters) unregisters.job) rfl

theorem Move.claims {setting : Setting R Sep} {server after : AppState R Sep}
    {event : Event R Sep} (move : Move setting server event after) (requested : Requested server)
    {id : Nat} (known : after.Known id) (unknown : ¬ server.Known id) :
    after.waiters id = 1 ∧ holders after id = 1 := by
  have fresh : after.store.attempts ≠ server.store.attempts := fun same =>
    unknown ⟨known.1, same ▸ known.2⟩
  cases move with
  | @thread index choice thread next moved here acts =>
      cases acts with
      | claimed via request key point free =>
          have last : id = server.store.attempts := by
            have bound : id < server.store.attempts + 1 := known.2
            exact Nat.le_antisymm (Nat.le_of_lt_succ bound)
              (Nat.le_of_not_lt fun less => unknown ⟨known.1, less⟩)
          subst last
          obtain ⟨none, letGo⟩ := requested.unclaimed thread (List.mem_of_getElem? here)
            (by rw [point]; rfl)
          -- Nobody can hold a number that has not been given out.
          have nobody : holders server server.store.attempts = 0 := by
            apply List.countP_eq_zero.mpr
            intro t inside clings
            simp only [Thread.clings, Bool.and_eq_true, decide_eq_true_eq] at clings
            exact Nat.lt_irrefl _ (requested.holds t inside _ clings.1).2
          have sum := countP_set_add (·.clings server.store.attempts)
            { thread with
              holds := some server.store.attempts
              point := via.owner request server.store.attempts } here
          have loose : thread.clings server.store.attempts = false := by
            simp [Thread.clings, none]
          have own : ({ thread with
              holds := some server.store.attempts
              point := via.owner request server.store.attempts } : Thread R Sep).clings
                server.store.attempts = true := by
            simp [Thread.clings, letGo]
          rw [loose, own] at sum
          refine ⟨by simp [AppState.waiters, Job.fresh], sum.trans ?_⟩
          rw [← holders, nobody]
          rfl
      | removed job point => exact absurd (server.store.remove_unregisters job).attempts fresh
      | _ => exact absurd rfl fresh
  | worker works =>
      have attempts : after.store.attempts = server.store.attempts := by cases works <;> rfl
      exact absurd attempts fresh
  | pruned => exact absurd (server.store.prune_unregisters _ _).attempts fresh
  | entered | evicted | ticked => exact absurd rfl fresh

theorem requested_start (model : Sep) (maxDepth retainFailed : Nat) :
    Requested (.start model maxDepth retainFailed : AppState R Sep) where
  numbered := Nat.le_refl _
  registered := by simp [AppState.start, JobStore.new]
  holds := by simp
  unclaimed := by simp
  rejoins := by simp

variable [DecidableEq Sep]

theorem requested_of_reaches {setting : Setting R Sep} {model : Sep} {maxDepth retainFailed : Nat}
    {ok : AppState R Sep → Event R Sep → Prop} {server : AppState R Sep}
    (once : ∀ server event, ok server event → LetsGoOnce server event)
    (run : (AppState.system setting model maxDepth retainFailed).Reaches ok
      (.start model maxDepth retainFailed) server) : Requested server :=
  run.invariant (requested_start model maxDepth retainFailed)
    fun _ _ _ _ requested allowed done => requested.move (move_of_step done) (once _ _ allowed)

/-- Requesters let go at most once, and drops do not join what they have joined. -/
def CountsOnce (server : AppState R Sep) (event : Event R Sep) : Prop :=
  LetsGoOnce server event ∧ server.rejoining event = none

omit [DecidableEq Sep] in
instance (server : AppState R Sep) (event : Event R Sep) : Decidable (CountsOnce server event) :=
  inferInstanceAs (Decidable (_ ∧ _))

omit [DecidableEq Sep] in
theorem releases_eq_some {point : Point R Sep} {job client : Nat} :
    point.releases = some (job, client) ↔ point = .releasing job client := by
  cases point <;> simp [Point.releases]

omit [DecidableEq Sep] in
theorem rejoins_eq_some {point : Point R Sep} {job : Nat} :
    point.rejoins = some job ↔ point = .joining job := by
  cases point <;> simp [Point.rejoins]

theorem release_decides {setting : Setting R Sep} {server after : AppState R Sep}
    {index job client : Nat} {choice : Choice}
    (done : server.step setting (.advance index choice) = some after)
    (releases : server.releasing (.advance index choice) = some (job, client)) :
    (after.threads[index]?).map (·.point) = some (.calling (.cancelPending job) (.remove job)) ↔
      after.waiters job = 0 := by
  obtain ⟨_, _, thread, same, here, releases⟩ := advancing_eq_some.mp releases
  cases same
  obtain ⟨moved, next, act, rfl⟩ := act_of_step here done
  have stands : ∀ next : Thread R Sep, (((server.threads.modify client fun t =>
      { t with letGo := true }).set index next)[index]?).map (·.point) = some next.point := by
    intro next
    rw [List.getElem?_set_self]
    · rfl
    · rw [List.length_modify]
      exact (List.getElem?_eq_some_iff.mp here).1
  have point := releases_eq_some.mp releases
  cases choice <;> simp only [AppState.act, point] at act <;> try cases act
  split at act <;> rename_i left <;> cases act
  · have some : ((server.change job (·.release)).release client).waiters job ≠ 0 :=
      Nat.ne_of_gt left
    refine ⟨fun goes => ?_, fun none => absurd none some⟩
    cases (stands _).symm.trans goes
  · exact ⟨fun _ => Nat.eq_zero_of_not_pos left, fun _ => stands _⟩

theorem rejoin_counts {setting : Setting R Sep} {server after : AppState R Sep}
    {event : Event R Sep} {job : Nat} (done : server.step setting event = some after)
    (again : server.rejoining event = some job) :
    after.waiters job = server.waiters job + 1 ∧ holders after job = holders server job := by
  obtain ⟨index, choice, thread, rfl, here, again⟩ := advancing_eq_some.mp again
  obtain ⟨moved, next, act, rfl⟩ := act_of_step here done
  have point := rejoins_eq_some.mp again
  cases choice <;> simp only [AppState.act, point] at act <;> cases act
  refine ⟨(waiters_change server job job (·.join)).trans (if_pos rfl), ?_⟩
  exact Nat.add_right_cancel
    (countP_set_add (·.clings job) { thread with point := .polling job } here)

theorem counted_of_reaches {setting : Setting R Sep} {model : Sep} {maxDepth retainFailed : Nat}
    {server : AppState R Sep}
    (run : (AppState.system setting model maxDepth retainFailed).Reaches CountsOnce
      (.start model maxDepth retainFailed) server) :
    ∀ id, server.Known id → server.waiters id = holders server id := by
  refine run.invariant (P := fun server => ∀ id, server.Known id →
    server.waiters id = holders server id) (fun id known => ?_)
    fun before event after path same counts done id known => ?_
  · exact absurd (Nat.lt_of_lt_of_le known.2 known.1) (Nat.lt_irrefl _)
  · have requested := requested_of_reaches (fun _ _ => And.left) path
    by_cases old : before.Known id
    · have equal := same id old
      cases (move_of_step done).accounts requested counts.1 old with
      | untouched waiters holders => rw [waiters, holders, equal]
      | joined found waiters holders => rw [waiters, holders, equal]
      | rejoined again => cases counts.2.symm.trans again
      | released waiters holders => rw [waiters, equal, ← holders, Nat.add_sub_cancel]
    · obtain ⟨one, own⟩ := (move_of_step done).claims requested known old
      rw [one, own]

/-- While drops do not join what they have joined, a job counts exactly the requesters that
hold it, and the release that leaves nobody is the one that goes on to cancel. The drop
that joins again is one too many. -/
theorem waiters_are_holders (setting : Setting R Sep) (model : Sep) (maxDepth retainFailed : Nat)
    (server : AppState R Sep)
    (run : (AppState.system setting model maxDepth retainFailed).Reaches CountsOnce
      (.start model maxDepth retainFailed) server) :
    (∀ id, server.Known id → server.waiters id = holders server id) ∧
      (∀ index choice job client after,
        server.step setting (.advance index choice) = some after →
          server.releasing (.advance index choice) = some (job, client) →
            LetsGoOnce server (.advance index choice) →
              ((after.threads[index]?).map (·.point) =
                some (.calling (.cancelPending job) (.remove job)) ↔ holders after job = 0)) ∧
      ∀ event after job, server.step setting event = some after →
        server.rejoining event = some job →
          server.Known job ∧ after.waiters job = holders after job + 1 := by
  have requested := requested_of_reaches (fun _ _ => And.left) run
  refine ⟨counted_of_reaches run, fun index choice job client after done releases once => ?_,
    fun event after job done again => ?_⟩
  · obtain ⟨requester, there, clings⟩ := once _ releases
    simp only [Thread.clings, Bool.and_eq_true, decide_eq_true_eq] at clings
    have known := requested.holds requester (List.mem_of_getElem? there) job clings.1
    have single : server.rejoining (.advance index choice) = none := by
      obtain ⟨_, _, thread, same, here, point⟩ := advancing_eq_some.mp releases
      cases same
      simp [AppState.rejoining, AppState.advancing, here, releases_eq_some.mp point, Point.rejoins]
    have counted := counted_of_reaches (.tail run ⟨once, single⟩ done)
    rw [release_decides done releases, counted job (known.carry (move_of_step done).carries)]
  · obtain ⟨more, same⟩ := rejoin_counts done again
    obtain ⟨index, choice, thread, rfl, here, point⟩ := advancing_eq_some.mp again
    have inside := List.mem_of_getElem? here
    have known := requested.holds thread inside job (requested.rejoins thread inside job point)
    exact ⟨known, by rw [more, same, counted_of_reaches run job known]⟩

/-- Two uploads of one track, and one of them lets go. -/
theorem second_upload_is_counted :
    ∃ server : AppState Unit String, server.waiters 1 = 1 ∧ holders server 1 = 1 := by
  have shared : ∃ server : AppState Unit String,
      (AppState.system trackSetting "htdemucs" 4 60).Reaches CountsOnce
        (.start "htdemucs" 4 60) server ∧ server.waiters 1 = 1 ∧ server.Known 1 :=
    System.exists_of_replay
      (upload 0 ++ .arrive .upload () :: List.replicate 2 (.advance 1 .plain) ++
      .delete 1 1 :: List.replicate 2 (.advance 2 .plain)) (by decide)
  obtain ⟨server, run, one, known⟩ := shared
  have same := (waiters_are_holders trackSetting "htdemucs" 4 60 server run).1 1 known
  exact ⟨server, one, same ▸ one⟩

/-- A drop finds an upload of the same track under way: two requesters, and a count of three. -/
theorem drop_is_counted_twice :
    ∃ server : AppState Unit String,
      (AppState.system trackSetting "htdemucs" 4 60).Reaches LetsGoOnce
        (.start "htdemucs" 4 60) server ∧
          server.Known 1 ∧ server.waiters 1 = 3 ∧ holders server 1 = 2 :=
  System.exists_of_replay
    (upload 0 ++ .arrive .drop () :: List.replicate 4 (.advance 1 .plain)) (by decide)

end Stemd.Server
