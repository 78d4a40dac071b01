import Stemd.Server.Ownership

/-! How often a key is separated while nothing goes wrong.

An upload looks in the cache after it has claimed, so what it does not find in flight it
finds filed. A drop looks before, and what is filed in between it separates again. -/

set_option autoImplicit false

namespace Stemd.Server

open Stemd.Core
open Stemd.Semantics

variable {R Sep : Type}

def AppState.keyOf (server : AppState R Sep) (id : Nat) : String := (server.store.job id).key

def Point.separates : Point R Sep → Option Nat
  | .decoding _ job | .submitting _ _ job => some job
  | _ => none

def WorkerEvent.spoils : WorkerEvent → Bool
  | .cancelled | .failed _ | .panicked _ | .unwritten _ => true
  | _ => false

def Point.fails (full : Bool) (choice : Choice) : Point R Sep → Bool
  | .decoding _ _ => (choice matches .rejected _)
  | .submitting .upload _ _ => full
  | _ => false

/-- A `DELETE`, a switch, an eviction, or the failure of a job. -/
def AppState.isDisturbance (server : AppState R Sep) : Event R Sep → Bool
  | .delete _ _ | .request _ | .evict _ => true
  | .worker event => event.spoils
  | .advance index choice => (server.threads[index]?).any fun thread =>
      thread.point.fails (decide (server.queue.maxDepth ≤ server.queue.pending.length)) choice
  | _ => false

def Point.dropClaims : Point R Sep → Option String
  | .claiming .drop _ key => some key
  | _ => none

def Calm (server : AppState R Sep) (event : Event R Sep) : Prop :=
  server.isDisturbance event = false

instance (server : AppState R Sep) (event : Event R Sep) : Decidable (Calm server event) :=
  inferInstanceAs (Decidable (_ = _))

/-- Nothing goes wrong, and when a drop claims a key its stems are not there yet, or the
job is in flight. -/
def Undisturbed (server : AppState R Sep) (event : Event R Sep) : Prop :=
  Calm server event ∧
    ∀ key ∈ server.advancing (fun _ point => point.dropClaims) event,
      server.cache.get key = none ∨ (server.store.inFlight key).isSome = true

instance (server : AppState R Sep) (event : Event R Sep) : Decidable (Undisturbed server event) :=
  inferInstanceAs (Decidable (_ ∧ ∀ key ∈ server.advancing _ event, _))

structure SeparatedOnce (server : AppState R Sep) : Prop where
  once : ∀ id ∈ server.queue.history.accepted, ∀ other ∈ server.queue.history.accepted,
    server.keyOf id = server.keyOf other → id = other
  found : ∀ id ∈ server.queue.history.accepted,
    server.store.inFlight (server.keyOf id) = some id ∨
      (server.cache.get (server.keyOf id)).isSome = true
  answered : ∀ thread ∈ server.threads, ∀ job, thread.point.held = some job →
    ∀ id ∈ server.queue.history.accepted, server.keyOf id = server.keyOf job →
      (∃ request, thread.point = .reviewing request job) ∧
        (server.cache.get (server.keyOf id)).isSome = true

structure Single (server : AppState R Sep) : Prop where
  live : ∀ id, 0 < handlers server id ∨ id ∈ server.queue.history.accepted →
    server.isTerminal id = false → server.store.inFlight (server.keyOf id) = some id
  filed : ∀ id ∈ server.queue.history.accepted, server.isTerminal id = true →
    (server.cache.get (server.keyOf id)).isSome = true
  published : ∀ id entry, server.queue.ledger.running = some id →
    server.phase = .published entry → (server.cache.get (server.keyOf id)).isSome = true
  first : ∀ thread ∈ server.threads, ∀ job, thread.point.separates = some job →
    ∀ id ∈ server.queue.history.accepted, server.keyOf id ≠ server.keyOf job
  once : ∀ id ∈ server.queue.history.accepted, ∀ other ∈ server.queue.history.accepted,
    server.keyOf id = server.keyOf other → id = other
  undeleted : ∀ thread ∈ server.threads, thread.point.isDelete = false

theorem Point.separates_held {point : Point R Sep} {job : Nat}
    (separates : point.separates = some job) : point.held = some job := by
  cases point <;> first | exact separates | cases separates

theorem Single.separatedOnce {server : AppState R Sep} (single : Single server)
    (owned : Owned server) : SeparatedOnce server where
  once := single.once
  found := fun id queued => by
    cases ended : server.isTerminal id with
    | false => exact .inl (single.live id (.inr queued) ended)
    | true => exact .inr (single.filed id queued ended)
  answered := fun thread inside job held id queued same => by
    have mine := handlers_pos.mpr ⟨thread, inside, held⟩
    obtain ⟨-, unqueued, live⟩ := owned.held job mine
    constructor
    -- Past the look in the cache it would be the second to separate the key.
    · have unseparated : thread.point.separates ≠ some job := fun separates =>
        single.first thread inside job separates id queued same
      cases point : thread.point with
      | reviewing request other =>
          rw [point] at held
          cases held
          exact ⟨request, rfl⟩
      | decoding request other =>
          rw [point] at held unseparated
          exact absurd held unseparated
      | submitting via request other =>
          rw [point] at held unseparated
          exact absurd held unseparated
      | _ => rw [point] at held; cases held
    · cases ended : server.isTerminal id with
      | true => exact single.filed id queued ended
      | false =>
          -- Both would be in flight, and a key has one job in flight.
          have own := single.live job (.inl mine) live
          have other := single.live id (.inr queued) ended
          rw [same, own] at other
          cases other
          exact absurd queued unqueued

/-! What each kind of step leaves of the invariant. -/

theorem keyOf_carry {server after : AppState R Sep} (carries : Carries server.store after.store)
    {id : Nat} (known : id < server.store.attempts) : after.keyOf id = server.keyOf id :=
  carries.keys id known

theorem Move.registered {setting : Setting R Sep} {server after : AppState R Sep}
    {event : Event R Sep} (move : Move setting server event after)
    (undeleted : ∀ thread ∈ server.threads, thread.point.isDelete = false) {key : String}
    {id : Nat} (found : server.store.inFlight key = some id) :
    after.store.byKey key = some id ∧ id ∈ after.store.byId := by
  obtain ⟨held, registered, live⟩ := JobStore.inFlight_eq_some.mp found
  cases move with
  | @thread index choice thread next moved here acts =>
      cases acts with
      | claimed via request key' point free =>
          have apart : key ≠ key' := by
            rintro rfl
            cases found.symm.trans free
          exact ⟨(Function.update_of_ne apart _ _).trans held, List.mem_cons_of_mem _ registered⟩
      | removed job point =>
          have is := undeleted thread (List.mem_of_getElem? here)
          rw [point] at is
          cases is
      | _ => exact ⟨held, registered⟩
  | worker works => cases works <;> exact ⟨held, registered⟩
  | pruned =>
      obtain ⟨members, keys⟩ :
          (id ∈ (server.store.prune server.cache.isEvicted server.clock).byId ↔ _) ∧ _ :=
        JobStore.prune_keeps (JobStore.prune_keeps_live live)
      exact ⟨keys key held, members.mpr registered⟩
  | entered | evicted | ticked => exact ⟨held, registered⟩

theorem Move.filed {setting : Setting R Sep} {server after : AppState R Sep}
    {event : Event R Sep} (move : Move setting server event after)
    (calm : Calm server event) {key : String}
    (filed : (server.cache.get key).isSome = true) : (after.cache.get key).isSome = true := by
  cases move with
  | thread here acts => cases acts <;> exact filed
  | worker works =>
      cases works with
      | written claimed busy before =>
          simp only [Cache.get, Cache.publish, Function.update_apply]
          split
          · rfl
          · exact filed
      | _ => exact filed
  | evicted key' => cases calm
  | entered | pruned | ticked => exact filed

theorem Acts.takes {setting : Setting R Sep} {server after : AppState R Sep}
    {thread next : Thread R Sep} {choice : Choice} {id : Nat}
    (acts : Acts setting server thread choice after next) (takes : next.point.held = some id) :
    thread.point.held = some id ∨ id = server.store.attempts ∧
      after.store.inFlight (after.keyOf id) = some id := by
  cases acts with
  | passed passes => exact .inl (passes.held ▸ takes)
  | switched current switch switches => cases switches.held.2.symm.trans takes
  | claimed via request key point free =>
      rw [Via.owner_held] at takes
      cases takes
      refine .inr ⟨rfl, JobStore.inFlight_eq_some.mpr ⟨?_, List.mem_cons_self, ?_⟩⟩
      · simp [AppState.keyOf, Job.fresh]
      · simp
  | missed request job point miss => exact .inl (by rw [point]; exact takes)
  | identified via _ _ | joined via _ _ _ _ _ | submitted via _ _ _ _ _ _ =>
      cases via <;> cases takes
  | released job client point =>
      dsimp only at takes
      split at takes <;> cases takes
  | called late call moved resume queue point advanced =>
      cases (AppState.resumes _ _).held.symm.trans takes
  | _ => cases takes

theorem Acts.running {setting : Setting R Sep} {server after : AppState R Sep}
    {thread next : Thread R Sep} {choice : Choice}
    (acts : Acts setting server thread choice after next) (served : server.queue.Served) :
    after.queue.ledger.running = server.queue.ledger.running ∧ after.phase = server.phase := by
  refine ⟨?_, by cases acts <;> rfl⟩
  rcases acts.queue with same | ⟨action, step, callers⟩ | ⟨via, request, job, position, -, accepted⟩
  · rw [same]
  · refine Queue.Inner.running_step served step ?_ ?_ <;> rintro rfl <;> cases callers
  · have step : server.queue.step (.submit ⟨job, request, setting.output request⟩) =
        some after.queue := by
      rw [Queue.Inner.step, accepted]
    exact Queue.Inner.running_step served step (by simp) (by simp)

theorem Acts.accepts {setting : Setting R Sep} {server after : AppState R Sep}
    {thread next : Thread R Sep} {choice : Choice} {id : Nat}
    (acts : Acts setting server thread choice after next) (served : server.queue.Served)
    (queued : id ∈ after.queue.history.accepted) :
    id ∈ server.queue.history.accepted ∨
      thread.point.separates = some id ∧ after.isTerminal id = false := by
  cases acts with
  | called late call moved resume queue point advanced =>
      rcases Queue.Call.advance_inner advanced with same | ⟨action, step, callers, -⟩
      · exact .inl (same ▸ queued)
      · refine .inl (Queue.Inner.accepted_step served step ?_ ▸ queued)
        rintro work rfl
        cases callers
  | submitted via request job position queue point accepted =>
      have more : queue.history.accepted = server.queue.history.accepted ++ [job] :=
        congrArg Ledger.accepted (Queue.Inner.submit_ledger accepted)
      rcases List.mem_append.mp (more ▸ queued) with old | new
      · exact .inl old
      · cases List.mem_singleton.mp new
        refine .inr ⟨by rw [point]; rfl, ?_⟩
        rw [AppState.isTerminal, AppState.change, JobStore.update_job, if_pos rfl]
        rfl
  | _ => exact .inl queued

theorem Works.accepts {server after : AppState R Sep} {event : WorkerEvent}
    (works : Works server event after) (served : server.queue.Served) :
    after.queue.history.accepted = server.queue.history.accepted := by
  cases works with
  | next done | built done | answered done | cleared _ done =>
      exact Queue.Inner.accepted_step served done (by simp)
  | _ => rfl

theorem Move.accepts {setting : Setting R Sep} {server after : AppState R Sep}
    {event : Event R Sep} {id : Nat} (move : Move setting server event after)
    (served : server.queue.Served) (queued : id ∈ after.queue.history.accepted) :
    id ∈ server.queue.history.accepted ∨ ∃ index choice thread, event = .advance index choice ∧
      server.threads[index]? = some thread ∧ thread.point.separates = some id ∧
        after.isTerminal id = false := by
  cases move with
  | @thread index choice thread next moved here acts =>
      rcases acts.accepts served queued with old | own
      · exact .inl old
      · exact .inr ⟨index, choice, thread, rfl, here, own⟩
  | worker works => exact .inl (works.accepts served ▸ queued)
  | entered | evicted | pruned | ticked => exact .inl queued

theorem Move.sources {setting : Setting R Sep} {server after : AppState R Sep}
    {event : Event R Sep} {id : Nat} (move : Move setting server event after)
    (served : server.queue.Served)
    (there : 0 < handlers after id ∨ id ∈ after.queue.history.accepted) :
    (0 < handlers server id ∨ id ∈ server.queue.history.accepted) ∨
      after.store.inFlight (after.keyOf id) = some id := by
  rcases there with holds | queued
  · obtain ⟨t, member, held⟩ := handlers_pos.mp holds
    have old : ∀ before ∈ server.threads, before.point.held = some id →
        (0 < handlers server id ∨ id ∈ server.queue.history.accepted) ∨
          after.store.inFlight (after.keyOf id) = some id :=
      fun before inside held => .inl (.inl (handlers_pos.mpr ⟨before, inside, held⟩))
    cases move.origin member with
    | stayed inside point => exact old _ inside (point ▸ held)
    | entered enters =>
        rcases t with ⟨point, holds, letGo⟩
        cases enters <;> cases held
    | acted is here acts same =>
        subst is same
        rcases acts.takes held with own | ⟨-, fresh⟩
        · exact old _ (List.mem_of_getElem? here) own
        · exact .inr fresh
  · rcases move.accepts served queued with before | ⟨_, _, thread, -, here, separates, -⟩
    · exact .inl (.inr before)
    · exact .inl (.inl (handlers_pos.mpr
        ⟨thread, List.mem_of_getElem? here, Point.separates_held separates⟩))

theorem Passes.separates {server : AppState R Sep} {point next : Point R Sep} {id : Nat}
    (passes : Passes server point next)
    (separates : next.separates = some id) : point.separates = some id := by
  cases passes <;> exact separates

theorem Acts.separates {setting : Setting R Sep} {server after : AppState R Sep}
    {thread next : Thread R Sep} {choice : Choice} {id : Nat}
    (acts : Acts setting server thread choice after next)
    (separates : next.point.separates = some id) :
    thread.point.separates = some id ∨
      (∃ request, thread.point = .reviewing request id ∧
        server.cache.get (server.keyOf id) = none ∧ after = server) ∨
      ∃ request key, thread.point = .claiming .drop request key ∧ id = server.store.attempts ∧
        server.store.inFlight key = none ∧ after.keyOf id = key := by
  cases acts with
  | passed passes => exact .inl (passes.separates separates)
  | switched current switch switches =>
      cases switches.held.2.symm.trans (Point.separates_held separates)
  | missed request job point miss =>
      cases separates
      exact .inr (.inl ⟨request, point, miss, rfl⟩)
  | claimed via request key point free =>
      cases via with
      | upload => cases separates
      | drop =>
          cases separates
          exact .inr (.inr ⟨request, key, point, rfl, free, by simp [AppState.keyOf, Job.fresh]⟩)
  | identified via _ _ | joined via _ _ _ _ _ | submitted via _ _ _ _ _ _ =>
      cases via <;> cases separates
  | released job client point =>
      dsimp only at separates
      split at separates <;> cases separates
  | called late call moved resume queue point advanced =>
      cases (AppState.resumes _ _).held.symm.trans (Point.separates_held separates)
  | _ => cases separates

theorem Passes.isDelete {server : AppState R Sep} {point next : Point R Sep}
    (passes : Passes server point next) :
    next.isDelete = false := by
  cases passes <;> rfl

theorem Switches.isDelete {server : AppState R Sep} {point next : Point R Sep} {current : Sep}
    {switch : SwitchState Sep} (switches : Switches server point next current switch) :
    next.isDelete = false := by
  cases switches <;> rfl

theorem Resumes.isDelete {call calling : Queue.Call Nat Sep} {after : Resume Sep}
    {point : Point R Sep} (resumes : Resumes call after point)
    (other : (Point.calling calling after : Point R Sep).isDelete = false) :
    point.isDelete = false := by
  cases resumes with
  | calling _ => cases after <;> exact other
  | removing job => cases other
  | _ => rfl

theorem Acts.isDelete {setting : Setting R Sep} {server after : AppState R Sep}
    {thread next : Thread R Sep} {choice : Choice}
    (acts : Acts setting server thread choice after next) (other : thread.point.isDelete = false) :
    next.point.isDelete = false := by
  cases acts with
  | passed passes => exact passes.isDelete
  | switched current switch switches => exact switches.isDelete
  | identified via _ _ | joined via _ _ _ _ _ | claimed via _ _ _ _ | submitted via _ _ _ _ _ _ =>
      cases via <;> rfl
  | found job client point | released job client point =>
      rw [point] at other
      cases other
  | called late call moved resume queue point advanced =>
      rw [point] at other
      exact (AppState.resumes _ _).isDelete other
  | _ => rfl

theorem Works.ends {server after : AppState R Sep} {event : WorkerEvent}
    (works : Works server event after) (calm : event.spoils = false) {id : Nat}
    (live : server.isTerminal id = false) (ended : after.isTerminal id = true) :
    ∃ entry, server.phase = .published entry := by
  have stuck : ∀ (claimed : Queue.Claimed Nat R) {progress : Progress},
      progress.stage.isTerminal = false →
        (server.change claimed.work.job (·.setProgress progress)).isTerminal id = false := by
    intro claimed progress unfinished
    rw [AppState.isTerminal, AppState.change, JobStore.update_job]
    split
    · exact unfinished
    · exact live
  cases works with
  | progressed claimed progress phase busy before now unfinished =>
      cases (stuck claimed unfinished).symm.trans ended
  | cancelled claimed busy before raised => cases calm
  | spoiled claimed message busy before how =>
      rcases how with ⟨_, rfl⟩ | ⟨_, rfl⟩ | ⟨_, rfl⟩ <;> cases calm
  | completed claimed entry busy before => exact ⟨entry, before⟩
  | _ => cases live.symm.trans ended

theorem Single.unique {server : AppState R Sep} (single : Single server) {id other : Nat}
    (there : 0 < handlers server id ∨ id ∈ server.queue.history.accepted)
    (there' : 0 < handlers server other ∨ other ∈ server.queue.history.accepted)
    (live : server.isTerminal id = false) (live' : server.isTerminal other = false)
    (same : server.keyOf id = server.keyOf other) : id = other := by
  have found := single.live id there live
  rw [same, single.live other there' live'] at found
  exact (Option.some.inj found).symm

/-- What is neither filed nor in flight was never accepted. -/
theorem Single.unseen {server : AppState R Sep} (single : Single server) {key : String}
    (miss : server.cache.get key = none) {id : Nat}
    (queued : id ∈ server.queue.history.accepted) (same : server.keyOf id = key) :
    server.isTerminal id = false ∧ server.store.inFlight key = some id := by
  cases ended : server.isTerminal id with
  | false => exact ⟨rfl, same ▸ single.live id (.inr queued) ended⟩
  | true =>
      have filed := single.filed id queued ended
      rw [same, miss] at filed
      cases filed

/-- An accepted job ends undisturbed only by being published. -/
theorem Owned.ends {setting : Setting R Sep} {server after : AppState R Sep}
    {event : Event R Sep} {id : Nat} (owned : Owned server)
    (calm : Calm server event) (move : Move setting server event after)
    (queued : id ∈ server.queue.history.accepted) (live : server.isTerminal id = false)
    (ended : after.isTerminal id = true) :
    ∃ entry, server.queue.ledger.running = some id ∧ server.phase = .published entry := by
  cases move with
  | @thread index choice thread next moved here acts =>
      rcases acts.terminal id with same | mine | ⟨fresh, -⟩
      · cases (same.trans live).symm.trans ended
      · have holds := handlers_pos.mpr ⟨thread, List.mem_of_getElem? here, mine⟩
        exact absurd queued (owned.held id holds).2.1
      · exact absurd fresh (Nat.ne_of_lt (owned.accepted id queued))
  | worker works =>
      obtain ⟨entry, phase⟩ := works.ends calm live ended
      rcases works.terminal owned.served id with same | runs
      · cases (same.trans live).symm.trans ended
      · exact ⟨entry, runs, phase⟩
  | entered | evicted | ticked => cases live.symm.trans ended
  | pruned =>
      have unregisters := server.store.prune_unregisters server.cache.isEvicted server.clock
      have same : (server.store.prune server.cache.isEvicted server.clock).job =
        server.store.job := unregisters.job
      cases live.symm.trans ((congrArg (fun jobs => (jobs id).isTerminal) same).symm.trans
        ended)

theorem Single.move {setting : Setting R Sep} {server after : AppState R Sep}
    {event : Event R Sep} (single : Single server) (owned : Owned server)
    (undisturbed : Undisturbed server event) (move : Move setting server event after) :
    Single after := by
  have owned' := owned.move move
  have carries := move.carries
  have named : ∀ {id}, 0 < handlers server id ∨ id ∈ server.queue.history.accepted →
      after.keyOf id = server.keyOf id := fun there =>
    keyOf_carry carries (there.elim (fun held => (owned.held _ held).1) (owned.accepted _))
  have filed : ∀ {id}, id ∈ server.queue.history.accepted →
      (server.cache.get (server.keyOf id)).isSome = true →
        (after.cache.get (after.keyOf id)).isSome = true := fun queued there => by
    rw [named (.inr queued)]
    exact move.filed undisturbed.1 there
  have held : ∀ {thread : Thread R Sep} {job}, thread ∈ server.threads →
      thread.point.held = some job → 0 < handlers server job := fun inside held =>
    handlers_pos.mpr ⟨_, inside, held⟩
  have separated : ∀ {index : Nat} {thread : Thread R Sep} {job},
      server.threads[index]? = some thread → thread.point.separates = some job →
        0 < handlers server job := fun here separates =>
    held (List.mem_of_getElem? here) (Point.separates_held separates)
  refine ⟨fun id there alive => ?_, fun id queued ended => ?_, fun id entry runs phase => ?_,
    fun t member job separates id queued same => ?_, fun id queued other queued' same => ?_,
    move.points (P := fun point => point.isDelete = false) single.undeleted
      (fun point enters => ?_) fun acts other => acts.isDelete other⟩
  · -- live
    rcases move.sources owned.served there with before | fresh
    · have live : server.isTerminal id = false := by
        rcases before with holds | queued
        · exact (owned.held id holds).2.2
        · by_contra ended
          have ended := owned.stays_terminal move (owned.accepted id queued) (by simpa using ended)
          cases alive.symm.trans ended
      obtain ⟨byKey, byId⟩ := move.registered single.undeleted (single.live id before live)
      rw [named before]
      exact JobStore.inFlight_eq_some.mpr ⟨byKey, byId, alive⟩
    · exact fresh
  · -- filed
    rcases move.accepts owned.served queued with old | ⟨_, _, _, -, -, -, live⟩
    · cases before : server.isTerminal id with
      | true => exact filed old (single.filed id old before)
      | false =>
          obtain ⟨entry, runs, phase⟩ := owned.ends undisturbed.1 move old before ended
          exact filed old (single.published id entry runs phase)
    · cases live.symm.trans ended
  · -- published
    have stays : after.queue.ledger.running = server.queue.ledger.running →
        after.phase = server.phase → (after.cache.get (after.keyOf id)).isSome = true := by
      intro running kept
      have before : server.queue.ledger.running = some id := running ▸ runs
      have there : server.queue.ledger.At id .running := before
      exact filed (owned.sound.at_accepted there)
        (single.published id entry before (kept ▸ phase))
    cases move with
    | thread here acts =>
        obtain ⟨running, kept⟩ := acts.running owned.served
        exact stays running kept
    | worker works =>
        cases works with
        | next done => cases phase
        | built done | answered done =>
            exact stays (Queue.Inner.running_step owned.served done (by simp) (by simp)) rfl
        | progressed claimed progress phase' busy before now live =>
            rcases now with rfl | rfl <;> cases phase
        | cancelled claimed busy before raised => cases phase
        | spoiled claimed message busy before how => cases phase
        | written claimed busy before =>
            have own : server.queue.ledger.running = some claimed.work.job :=
              congrArg (Option.map _) (owned.served.slot claimed busy)
            cases own.symm.trans runs
            simp [Cache.get, Cache.publish, AppState.keyOf]
        | completed claimed entry' busy before => cases phase
        | cleared before done => cases phase
    | entered | evicted | pruned | ticked => exact stays rfl rfl
  · -- first
    have mine : 0 < handlers after job :=
      handlers_pos.mpr ⟨t, member, Point.separates_held separates⟩
    have different : id ≠ job := by
      rintro rfl
      exact (owned'.held id mine).2.1 queued
    -- Whoever was about to have it separated before is the first still ..
    have stays : ∀ thread ∈ server.threads, thread.point.separates ≠ some job := by
      intro thread inside separates
      have own := held inside (Point.separates_held separates)
      rcases move.accepts owned.served queued with old | ⟨_, _, _, -, here, separates', -⟩
      · rw [named (.inr old), named (.inl own)] at same
        exact single.first thread inside job separates id old same
      · have other := separated here separates'
        rw [named (.inl other), named (.inl own)] at same
        exact different (single.unique (.inl other) (.inl own) (owned.held id other).2.2
          (owned.held job own).2.2 same)
    cases move.origin member with
    | stayed inside point => exact stays _ inside (point ▸ separates)
    | entered enters =>
        rcases t with ⟨point, holds, letGo⟩
        cases enters <;> cases separates
    | @acted index choice thread moved is here acts after_eq =>
        subst is after_eq
        have inside := List.mem_of_getElem? here
        rcases acts.separates separates with before | ⟨request, point, miss, rfl⟩ |
          ⟨request, key, point, rfl, free, named'⟩
        · exact stays thread inside before
        · -- .. and who looks in the cache and misses finds nobody came before.
          have own := held inside (by rw [point]; rfl)
          obtain ⟨live, -⟩ := single.unseen miss queued same
          exact different (single.unique (.inr queued) (.inl own) live (owned.held job own).2.2
            same)
        · have old : id ∈ server.queue.history.accepted := by
            rcases acts.accepts owned.served queued with old | ⟨separates', -⟩
            · exact old
            · rw [point] at separates'
              cases separates'
          have miss := (undisturbed.2 key (advancing_eq_some.mpr
            ⟨index, choice, thread, rfl, here, by rw [point]; rfl⟩)).resolve_right (by simp [free])
          obtain ⟨-, found⟩ := single.unseen miss old ((named (.inr old)).symm.trans
            (same.trans named'))
          cases found.symm.trans free
  · -- once
    rcases move.accepts owned.served queued with old | ⟨_, _, _, event, here, separates, -⟩ <;>
      rcases move.accepts owned.served queued' with old' | ⟨_, _, _, event', here', separates', -⟩
    · rw [named (.inr old), named (.inr old')] at same
      exact single.once id old other old' same
    · rw [named (.inr old), named (.inl (separated here' separates'))] at same
      exact absurd same (single.first _ (List.mem_of_getElem? here') other separates' id old)
    · rw [named (.inl (separated here separates)), named (.inr old')] at same
      exact absurd same.symm (single.first _ (List.mem_of_getElem? here) id separates other old')
    · cases event.symm.trans event'
      cases here.symm.trans here'
      exact Option.some.inj (separates.symm.trans separates')
  · -- undeleted
    cases enters <;> first | rfl | cases undisturbed.1

theorem single_start (model : Sep) (maxDepth retainFailed : Nat) :
    Single (.start model maxDepth retainFailed : AppState R Sep) where
  live := by simp [handlers]
  filed := by simp
  published := by simp [Ledger.empty]
  first := by simp
  once := by simp
  undeleted := by simp

variable [DecidableEq Sep]

theorem dropClaim_separates {setting : Setting R Sep} {server after : AppState R Sep}
    {event : Event R Sep} {key : String} (done : server.step setting event = some after)
    (claims : server.advancing (fun _ point => point.dropClaims) event = some key)
    (free : server.store.inFlight key = none) :
    after.cache = server.cache ∧ ∃ thread ∈ after.threads, ∃ job,
      thread.point.separates = some job ∧ after.keyOf job = key := by
  obtain ⟨index, choice, thread, rfl, here, claims⟩ := advancing_eq_some.mp claims
  obtain ⟨moved, next, act, rfl⟩ := act_of_step here done
  unfold Point.dropClaims at claims
  split at claims <;> cases claims
  rename_i request point
  have place := (List.getElem?_eq_some_iff.mp here).1
  have claim := JobStore.claim_free server.clock free
  cases choice <;> simp only [AppState.act, point, claim] at act <;> cases act
  refine ⟨rfl, _, List.mem_set place _, server.store.attempts, rfl, ?_⟩
  simp [AppState.keyOf, Job.fresh]

/-- In an undisturbed run in which no drop claims what has just been filed, a key is
submitted once, and whoever asks for it later finds it in flight or filed. -/
theorem separated_once (setting : Setting R Sep) (model : Sep) (maxDepth retainFailed : Nat)
    (server : AppState R Sep)
    (run : (AppState.system setting model maxDepth retainFailed).Reaches Undisturbed
      (.start model maxDepth retainFailed) server) :
    SeparatedOnce server ∧
      ∀ event after, server.step setting event = some after → Calm server event →
        ¬ Undisturbed server event → ∃ thread ∈ after.threads, ∃ job,
          thread.point.separates = some job ∧
            (after.cache.get (after.keyOf job)).isSome = true := by
  have single : Single server :=
    run.invariant (single_start model maxDepth retainFailed)
      fun before event after path single undisturbed done =>
        single.move (owned_of_reaches path) undisturbed (move_of_step done)
  refine ⟨single.separatedOnce (owned_of_reaches run), fun event after done calm late => ?_⟩
  simp only [Undisturbed, calm, true_and, not_forall, not_or] at late
  obtain ⟨key, claims, filed, free⟩ := late
  obtain ⟨cache, thread, inside, job, separates, same⟩ := dropClaim_separates done claims
    (by simpa using free)
  refine ⟨thread, inside, job, separates, ?_⟩
  rw [same, cache]
  exact Option.isSome_iff_ne_none.mpr filed

/-- An upload, a drop that joins it, and an upload that comes when the stems are there. -/
theorem three_requests_separate_once :
    ∃ server : AppState Unit String, server.queue.history.finished = [1] ∧
      server.threads.length = 3 ∧ SeparatedOnce server := by
  have served : ∃ server : AppState Unit String,
      (AppState.system trackSetting "htdemucs" 4 60).Reaches Undisturbed
        (.start "htdemucs" 4 60) server ∧
          server.queue.history.finished = [1] ∧ server.threads.length = 3 :=
    System.exists_of_replay (upload 0 ++ .arrive .drop () :: List.replicate 4 (.advance 1 .plain) ++
      separation ++ .arrive .upload () :: List.replicate 3 (.advance 2 .plain)) (by decide)
  obtain ⟨server, run, finished, requests⟩ := served
  exact ⟨server, finished, requests, (separated_once trackSetting "htdemucs" 4 60 server run).1⟩

/-- A drop misses the cache, an upload of the same track comes and goes, and the drop, which
finds nothing in flight, has it separated a second time. -/
theorem drop_separates_again :
    ∃ server : AppState Unit String,
      (AppState.system trackSetting "htdemucs" 4 60).Reaches Calm (.start "htdemucs" 4 60) server ∧
        server.queue.history.accepted = [1, 2] ∧ server.keyOf 1 = server.keyOf 2 :=
  System.exists_of_replay
    (.arrive .drop () :: List.replicate 2 (.advance 0 .plain) ++ upload 1 ++ separation ++
      List.replicate 2 (.advance 0 .plain)) (by decide)

end Stemd.Server
