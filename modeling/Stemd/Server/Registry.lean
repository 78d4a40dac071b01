import Mathlib.Data.List.AList
import Stemd.Server.Ownership

/-! The store's two maps as they are held: by the text of an id and by the text of a key.

Three mutators keep the maps in step under one lock, while the jobs they name change
their stages outside it. The store of the other modules names a job by the number of the
attempt that made it; this one has the texts, and every run of the server is one of its. -/

set_option autoImplicit false

namespace Stemd.Server

open Stemd.Core
open Stemd.Semantics

/-- Jobs indexed both ways. A shared job is named by where it lives in the heap. -/
structure Registry where
  byId : AList fun _ : String => Nat
  /-- Cache key to the id of the job currently representing it. -/
  byKey : AList fun _ : String => String

namespace Registry

def insert (registry : Registry) (id key : String) (address : Nat) : Registry where
  byId := registry.byId.insert id address
  byKey := registry.byKey.insert key id

/-- The key goes only if this job is still the one representing it. -/
def remove (registry : Registry) (key : Nat → String) (id : String) : Bool × Registry :=
  match registry.byId.lookup id with
  | none => (false, registry)
  | some address => (true, {
      byId := registry.byId.erase id
      byKey := if registry.byKey.lookup (key address) = some id then
          registry.byKey.erase (key address)
        else registry.byKey })

def inFlight (registry : Registry) (live : Nat → Bool) (key : String) : Option Nat :=
  ((registry.byKey.lookup key).bind fun id => registry.byId.lookup id).filter live

end Registry

inductive Change where
  | join
  | release
  | report (progress : Progress)
  | complete (entry : Nat) (cached : Bool)
  | cancelled
  | fail (message : String)

def Change.apply (address : Nat) : Change → Job String → Job String
  | .join => Job.join
  | .release => Job.release
  | .report progress => (·.setProgress progress)
  | .complete entry cached => (·.complete address entry cached)
  | .cancelled => Job.cancelled
  | .fail message => (·.fail message)

@[simp] theorem Change.apply_key (address : Nat) (change : Change) (job : Job String) :
    (change.apply address job).key = job.key := by cases change <;> rfl

/-- The heap keeps every job ever made; `id` is the text each was given. -/
structure SharedStore where
  jobs : Registry
  heap : Nat → Job String
  id : Nat → String
  attempts : Nat
  retainFailed : Nat

inductive StoreEvent where
  | claim (key : String) (now : Nat)
  | remove (id : String)
  | prune (evicted : Nat → Bool) (now : Nat)
  | change (address : Nat) (change : Change)

namespace SharedStore

def new (retainFailed : Nat) : SharedStore where
  jobs := ⟨∅, ∅⟩
  heap := fun _ => .fresh "" 0
  id := fun _ => ""
  attempts := 1
  retainFailed := retainFailed

def inFlight (store : SharedStore) (key : String) : Option Nat :=
  store.jobs.inFlight (fun address => !(store.heap address).isTerminal) key

def update (store : SharedStore) (address : Nat) (change : Change) : SharedStore :=
  { store with
    heap := Function.update store.heap address (change.apply address (store.heap address)) }

/-- `Ok` is a fresh job, `Err` one that is in flight and has been joined. -/
def claim (store : SharedStore) (key : String) (now : Nat) : Except Nat Nat × SharedStore :=
  match store.inFlight key with
  | some address => (.error address, store.update address .join)
  | none =>
      let id := jobId key store.attempts
      (.ok store.attempts, { store with
        jobs := store.jobs.insert id key store.attempts
        heap := Function.update store.heap store.attempts (.fresh key now)
        id := Function.update store.id store.attempts id
        attempts := store.attempts + 1 })

def remove (store : SharedStore) (id : String) : Bool × SharedStore :=
  let (found, jobs) := store.jobs.remove (fun address => (store.heap address).key) id
  (found, { store with jobs := jobs })

def stale (store : SharedStore) (evicted : Nat → Bool) (now : Nat) (address : Nat) : Bool :=
  (store.heap address).isTerminal &&
    (store.heap address).entry.elim
      (decide (store.retainFailed < now - (store.heap address).created)) evicted

/-- The ids `prune` collects before it removes any. -/
def staleIds (store : SharedStore) (evicted : Nat → Bool) (now : Nat) : List String :=
  ((store.jobs.byId.entries.map Sigma.snd).filter (store.stale evicted now)).map store.id

def prune (store : SharedStore) (evicted : Nat → Bool) (now : Nat) : Nat × SharedStore :=
  let stale := store.staleIds evicted now
  (stale.length, stale.foldl (fun store id => (store.remove id).2) store)

/-- A job that has ended is not revived; `evicted` and `now` are whatever a call reads. -/
def step (store : SharedStore) : StoreEvent → Option SharedStore
  | .claim key now => some (store.claim key now).2
  | .remove id => some (store.remove id).2
  | .prune evicted now => some (store.prune evicted now).2
  | .change address change =>
      if (store.heap address).isTerminal = true →
          (change.apply address (store.heap address)).isTerminal = true then
        some (store.update address change)
      else none

def system (retainFailed : Nat) : System SharedStore StoreEvent := ⟨new retainFailed, step⟩

def Made (store : SharedStore) (address : Nat) : Prop :=
  0 < address ∧ address < store.attempts

structure Live (store : SharedStore) (key : String) (id : String) (address : Nat) : Prop where
  present : store.jobs.byId.lookup id = some address
  key : (store.heap address).key = key
  open' : (store.heap address).isTerminal = false

structure Registered (store : SharedStore) : Prop where
  positive : 0 < store.attempts
  named : ∀ address, store.Made address →
    store.id address = jobId (store.heap address).key address
  found : ∀ id address, store.jobs.byId.lookup id = some address →
    store.Made address ∧ store.id address = id
  pointed : ∀ key id, store.jobs.byKey.lookup key = some id →
    ∃ address, store.jobs.byId.lookup id = some address ∧ (store.heap address).key = key
  live : ∀ key id address, store.Live key id address → store.jobs.byKey.lookup key = some id

variable {store : SharedStore}

theorem inFlight_eq_some {key : String} {address : Nat} :
    store.inFlight key = some address ↔ ∃ id, store.jobs.byKey.lookup key = some id ∧
      store.jobs.byId.lookup id = some address ∧ (store.heap address).isTerminal = false := by
  simp only [inFlight, Registry.inFlight, Option.filter_eq_some_iff, Option.bind_eq_some_iff,
    Bool.not_eq_true']
  constructor
  · rintro ⟨⟨id, held, present⟩, live⟩
    exact ⟨id, held, present, live⟩
  · rintro ⟨id, held, present, live⟩
    exact ⟨⟨id, held, present⟩, live⟩

theorem update_heap (address : Nat) (change : Change) (other : Nat) :
    (store.update address change).heap other =
      if other = address then change.apply address (store.heap address) else store.heap other :=
  Function.update_apply ..

theorem remove_absent {id : String} (absent : store.jobs.byId.lookup id = none) :
    store.remove id = (false, store) := by
  simp only [remove, Registry.remove, absent]

theorem remove_present {id : String} {address : Nat}
    (present : store.jobs.byId.lookup id = some address) :
    store.remove id = (true, { store with jobs := {
      byId := store.jobs.byId.erase id
      byKey := if store.jobs.byKey.lookup (store.heap address).key = some id then
          store.jobs.byKey.erase (store.heap address).key
        else store.jobs.byKey } }) := by
  simp only [remove, Registry.remove, present]

theorem claim_found {key : String} {address : Nat} (now : Nat)
    (found : store.inFlight key = some address) :
    store.claim key now = (.error address, store.update address .join) := by
  simp only [claim, found]

theorem claim_free {key : String} (now : Nat) (free : store.inFlight key = none) :
    store.claim key now = (.ok store.attempts, { store with
      jobs := store.jobs.insert (jobId key store.attempts) key store.attempts
      heap := Function.update store.heap store.attempts (.fresh key now)
      id := Function.update store.id store.attempts (jobId key store.attempts)
      attempts := store.attempts + 1 }) := by
  simp only [claim, free]

@[simp] theorem remove_heap (id : String) : (store.remove id).2.heap = store.heap := rfl

@[simp] theorem remove_id (id : String) : (store.remove id).2.id = store.id := rfl

@[simp] theorem remove_attempts (id : String) :
    (store.remove id).2.attempts = store.attempts := rfl

theorem remove_byId (id other : String) :
    (store.remove id).2.jobs.byId.lookup other =
      if other = id then none else store.jobs.byId.lookup other := by
  cases present : store.jobs.byId.lookup id with
  | none =>
      rw [remove_absent present]
      split
      · rename_i same
        rw [same, present]
      · rfl
  | some address =>
      rw [remove_present present]
      by_cases same : other = id
      · subst other
        simp
      · simp [same]

namespace Registered

variable (registered : store.Registered)

include registered

theorem id_injective {address other : Nat} (made : store.Made address)
    (made' : store.Made other) (same : store.id address = store.id other) : address = other := by
  rw [registered.named address made, registered.named other made'] at same
  exact jobId_attempt same

theorem inFlight_iff {key : String} {address : Nat} :
    store.inFlight key = some address ↔ ∃ id, store.Live key id address := by
  rw [inFlight_eq_some]
  constructor
  · rintro ⟨id, held, present, live⟩
    obtain ⟨other, there, carries⟩ := registered.pointed key id held
    obtain rfl := Option.some.inj (there.symm.trans present)
    exact ⟨id, present, carries, live⟩
  · rintro ⟨id, live⟩
    exact ⟨id, registered.live key id address live, live.present, live.open'⟩

theorem live_unique {key id id' : String} {address address' : Nat}
    (live : store.Live key id address) (live' : store.Live key id' address') :
    id = id' ∧ address = address' := by
  have held := registered.live key id address live
  have held' := registered.live key id' address' live'
  obtain rfl := Option.some.inj (held.symm.trans held')
  exact ⟨rfl, Option.some.inj (live.present.symm.trans live'.present)⟩

theorem remove_byKey (id key other : String) :
    (store.remove id).2.jobs.byKey.lookup key = some other ↔
      store.jobs.byKey.lookup key = some other ∧ other ≠ id := by
  cases present : store.jobs.byId.lookup id with
  | none =>
      rw [remove_absent present]
      refine ⟨fun held => ⟨held, ?_⟩, And.left⟩
      rintro rfl
      obtain ⟨address, there, -⟩ := registered.pointed key other held
      cases present.symm.trans there
  | some address =>
      -- A key that names this job is the key it carries.
      have own : store.jobs.byKey.lookup key = some id → key = (store.heap address).key := by
        intro held
        obtain ⟨found, there, carries⟩ := registered.pointed key id held
        rw [← carries, Option.some.inj (there.symm.trans present)]
      rw [remove_present present]
      dsimp only
      split
      · rename_i held
        by_cases same : key = (store.heap address).key
        · subst same
          rw [AList.lookup_erase, held, Option.some.injEq]
          constructor
          · rintro ⟨⟩
          · rintro ⟨rfl, different⟩
            exact absurd rfl different
        · rw [AList.lookup_erase_ne same]
          refine ⟨fun kept => ⟨kept, ?_⟩, And.left⟩
          rintro rfl
          exact same (own kept)
      · rename_i unheld
        refine ⟨fun kept => ⟨kept, ?_⟩, And.left⟩
        rintro rfl
        exact unheld (own kept ▸ kept)

theorem remove (id : String) : (store.remove id).2.Registered where
  positive := registered.positive
  named := registered.named
  found := by
    intro other address present
    rw [remove_byId] at present
    split at present
    · cases present
    · exact registered.found other address present
  pointed := by
    intro key other held
    obtain ⟨held, different⟩ := (registered.remove_byKey id key other).mp held
    obtain ⟨address, present, carries⟩ := registered.pointed key other held
    exact ⟨address, by rw [remove_byId, if_neg different, present], carries⟩
  live := by
    intro key other address live
    have present := live.present
    rw [remove_byId] at present
    split at present
    · cases present
    · rename_i different
      have before := registered.live key other address ⟨present, live.key, live.open'⟩
      exact (registered.remove_byKey id key other).mpr ⟨before, different⟩

theorem update {address : Nat} {change : Change}
    (kept : (store.heap address).isTerminal = true →
      (change.apply address (store.heap address)).isTerminal = true) :
    (store.update address change).Registered := by
  have keys : ∀ other, ((store.update address change).heap other).key = (store.heap other).key := by
    intro other
    rw [update_heap]
    split
    · rename_i same
      rw [same, Change.apply_key]
    · rfl
  have open' : ∀ other, ((store.update address change).heap other).isTerminal = false →
      (store.heap other).isTerminal = false := by
    intro other live
    rw [update_heap] at live
    split at live
    · rename_i same
      rw [same]
      by_contra ended
      rw [kept (by simpa using ended)] at live
      cases live
    · exact live
  refine ⟨registered.positive, fun other made => ?_, registered.found, fun key id held => ?_,
    fun key id other live => ?_⟩
  · rw [keys]
    exact registered.named other made
  · obtain ⟨other, present, carries⟩ := registered.pointed key id held
    exact ⟨other, present, (keys other).trans carries⟩
  · exact registered.live key id other
      ⟨live.present, (keys other).symm.trans live.key, open' other live.open'⟩

theorem claim (key : String) (now : Nat) : (store.claim key now).2.Registered := by
  cases working : store.inFlight key with
  | some address =>
      rw [claim_found now working]
      exact registered.update fun ended => ended
  | none =>
      rw [claim_free now working]
      have fresh : ∀ {id : String} {address : Nat}, store.jobs.byId.lookup id = some address →
          id ≠ jobId key store.attempts ∧ address ≠ store.attempts := by
        intro id address present
        obtain ⟨made, named⟩ := registered.found id address present
        constructor
        · rintro rfl
          rw [registered.named address made] at named
          exact Nat.ne_of_lt made.2 (jobId_attempt named)
        · exact Nat.ne_of_lt made.2
      have looked : ∀ {id : String} {address : Nat},
          (store.jobs.insert (jobId key store.attempts) key store.attempts).byId.lookup id =
              some address ↔
            id = jobId key store.attempts ∧ address = store.attempts ∨
              store.jobs.byId.lookup id = some address := by
        intro id address
        by_cases same : id = jobId key store.attempts
        · subst id
          simp only [Registry.insert, AList.lookup_insert, Option.some.injEq, true_and]
          constructor
          · rintro rfl
            exact .inl rfl
          · rintro (rfl | present)
            · rfl
            · exact absurd rfl (fresh present).1
        · simp [Registry.insert, same]
      refine ⟨Nat.succ_pos _, fun address made => ?_, fun id address present => ?_,
        fun other id held => ?_, fun other id address live => ?_⟩
      · by_cases same : address = store.attempts
        · subst same
          simp [Job.fresh]
        · have older : store.Made address := ⟨made.1, by have := made.2; simp only at this; omega⟩
          simpa [same] using registered.named address older
      · rcases looked.mp present with ⟨rfl, rfl⟩ | present
        · exact ⟨⟨registered.positive, Nat.lt_succ_self _⟩, by simp⟩
        · obtain ⟨made, named⟩ := registered.found id address present
          exact ⟨⟨made.1, Nat.lt_succ_of_lt made.2⟩, by simpa [(fresh present).2] using named⟩
      · by_cases same : other = key
        · subst same
          simp only [Registry.insert, AList.lookup_insert, Option.some.injEq] at held
          exact ⟨store.attempts, looked.mpr (.inl ⟨held.symm, rfl⟩), by simp [Job.fresh]⟩
        · simp only [Registry.insert, AList.lookup_insert_ne same] at held
          obtain ⟨address, present, carries⟩ := registered.pointed other id held
          exact ⟨address, looked.mpr (.inr present), by simpa [(fresh present).2] using carries⟩
      · rcases looked.mp live.present with ⟨rfl, rfl⟩ | present
        · have same : key = other := by simpa [Job.fresh] using live.key
          subst same
          simp [Registry.insert]
        · have apart := (fresh present).2
          have carries : (store.heap address).key = other := by simpa [apart] using live.key
          have open' : (store.heap address).isTerminal = false := by simpa [apart] using live.open'
          have older : store.Live other id address := ⟨present, carries, open'⟩
          -- Nothing was in flight for the key that has just been claimed.
          have different : other ≠ key := by
            rintro rfl
            have found := registered.inFlight_iff.mpr ⟨id, older⟩
            cases working.symm.trans found
          simpa [Registry.insert, different] using registered.live other id address older

omit registered in
theorem foldl_remove {ids : List String} {store : SharedStore} (registered : store.Registered) :
    (ids.foldl (fun store id => (store.remove id).2) store).Registered := by
  induction ids generalizing store with
  | nil => exact registered
  | cons id rest ih => exact ih (registered.remove id)

theorem prune (evicted : Nat → Bool) (now : Nat) : (store.prune evicted now).2.Registered :=
  registered.foldl_remove

theorem step {event : StoreEvent} {after : SharedStore} (done : store.step event = some after) :
    after.Registered := by
  cases event with
  | claim key now =>
      cases done
      exact registered.claim key now
  | remove id =>
      cases done
      exact registered.remove id
  | prune evicted now =>
      cases done
      exact registered.prune evicted now
  | change address change =>
      simp only [SharedStore.step] at done
      split at done
      · rename_i kept
        cases done
        exact registered.update kept
      · cases done

omit registered in
theorem start (retainFailed : Nat) : (SharedStore.new retainFailed).Registered where
  positive := Nat.one_pos
  named := fun address made => absurd made.1 (Nat.not_lt.mpr (Nat.le_of_lt_succ made.2))
  found := fun _ _ present => by cases present
  pointed := fun _ _ held => by cases held
  live := fun _ _ _ live => by cases live.present

end Registered

theorem registered_of_reaches {retainFailed : Nat} {ok : SharedStore → StoreEvent → Prop}
    (run : (system retainFailed).Reaches ok (new retainFailed) store) : store.Registered :=
  run.invariant (Registered.start retainFailed) fun _ _ _ _ registered _ done =>
    registered.step done

theorem foldl_remove_keeps (ids : List String) (store : SharedStore) :
    ∃ jobs, ids.foldl (fun store id => (store.remove id).2) store = { store with jobs := jobs } := by
  induction ids generalizing store with
  | nil => exact ⟨store.jobs, rfl⟩
  | cons id rest ih =>
      obtain ⟨jobs, same⟩ := ih (store.remove id).2
      exact ⟨jobs, same⟩

theorem foldl_remove_lookup (ids : List String) {store : SharedStore}
    (registered : store.Registered) :
    (∀ id address, (ids.foldl (fun store id => (store.remove id).2) store).jobs.byId.lookup id =
        some address ↔ store.jobs.byId.lookup id = some address ∧ id ∉ ids) ∧
      ∀ key id, (ids.foldl (fun store id => (store.remove id).2) store).jobs.byKey.lookup key =
        some id ↔ store.jobs.byKey.lookup key = some id ∧ id ∉ ids := by
  induction ids generalizing store with
  | nil => simp
  | cons first rest ih =>
      obtain ⟨byId, byKey⟩ := ih (registered.remove first)
      constructor
      · intro id address
        rw [List.foldl_cons, byId, remove_byId, List.mem_cons, not_or]
        by_cases same : id = first
        · simp [same]
        · simp [same]
      · intro key id
        rw [List.foldl_cons, byKey, registered.remove_byKey, List.mem_cons, not_or, and_assoc]

theorem mem_staleIds {evicted : Nat → Bool} {now : Nat} (registered : store.Registered)
    {id : String} :
    id ∈ store.staleIds evicted now ↔ ∃ address, store.jobs.byId.lookup id = some address ∧
      store.stale evicted now address = true := by
  simp only [staleIds, List.mem_map, List.mem_filter]
  constructor
  · rintro ⟨address, ⟨⟨entry, inside, rfl⟩, stale⟩, rfl⟩
    have present : store.jobs.byId.lookup entry.1 = some entry.2 := AList.mem_lookup_iff.mpr inside
    exact ⟨entry.2, by rw [(registered.found _ _ present).2, present], stale⟩
  · rintro ⟨address, present, stale⟩
    exact ⟨address, ⟨⟨⟨id, address⟩, AList.mem_lookup_iff.mp present, rfl⟩, stale⟩,
      (registered.found id address present).2⟩

structure Keeps (store after : SharedStore) : Prop where
  attempts : store.attempts ≤ after.attempts
  id : ∀ address, store.Made address → after.id address = store.id address
  key : ∀ address, store.Made address → (after.heap address).key = (store.heap address).key

theorem keeps_step {event : StoreEvent} {after : SharedStore}
    (done : store.step event = some after) : store.Keeps after := by
  have updated : ∀ (address : Nat) (change : Change), store.Keeps (store.update address change) := by
    intro address change
    refine ⟨Nat.le_refl _, fun _ _ => rfl, fun other _ => ?_⟩
    rw [update_heap]
    split
    · rename_i same
      rw [same, Change.apply_key]
    · rfl
  cases event with
  | claim key now =>
      cases done
      cases working : store.inFlight key with
      | some address =>
          rw [claim_found now working]
          exact updated address .join
      | none =>
          rw [claim_free now working]
          refine ⟨Nat.le_succ _, fun address made => ?_, fun address made => ?_⟩
          · exact Function.update_of_ne (Nat.ne_of_lt made.2) _ _
          · exact congrArg Job.key (Function.update_of_ne (Nat.ne_of_lt made.2) _ _)
  | remove id =>
      cases done
      exact ⟨Nat.le_refl _, fun _ _ => rfl, fun _ _ => rfl⟩
  | prune evicted now =>
      cases done
      obtain ⟨jobs, same⟩ := foldl_remove_keeps (store.staleIds evicted now) store
      simp only [prune, same]
      exact ⟨Nat.le_refl _, fun _ _ => rfl, fun _ _ => rfl⟩
  | change address change =>
      simp only [step] at done
      split at done
      · cases done
        exact updated address change
      · cases done

theorem Keeps.trans {first second third : SharedStore} (before : first.Keeps second)
    (after : second.Keeps third) : first.Keeps third := by
  have made : ∀ address, first.Made address → second.Made address := fun _ made =>
    ⟨made.1, Nat.lt_of_lt_of_le made.2 before.attempts⟩
  exact ⟨Nat.le_trans before.attempts after.attempts,
    fun address known => (after.id address (made address known)).trans (before.id address known),
    fun address known => (after.key address (made address known)).trans (before.key address known)⟩

theorem keeps_of_reaches {retainFailed : Nat} {ok : SharedStore → StoreEvent → Prop}
    {after : SharedStore} (run : (system retainFailed).Reaches ok store after) :
    store.Keeps after :=
  run.invariant ⟨Nat.le_refl _, fun _ _ => rfl, fun _ _ => rfl⟩ fun _ _ _ _ keeps _ done =>
    keeps.trans (keeps_step done)

end SharedStore

structure Numbers (store : SharedStore) (jobs : JobStore String) : Prop where
  heap : store.heap = jobs.job
  attempts : store.attempts = jobs.attempts
  retainFailed : store.retainFailed = jobs.retainFailed
  byId : ∀ id address, store.jobs.byId.lookup id = some address ↔
    store.id address = id ∧ address ∈ jobs.byId
  byKey : ∀ key, store.jobs.byKey.lookup key = (jobs.byKey key).map store.id
  known : ∀ key address, jobs.byKey key = some address → store.Made address

namespace Numbers

open SharedStore

variable {store : SharedStore} {jobs : JobStore String}

theorem start (retainFailed : Nat) : Numbers (.new retainFailed) (.new retainFailed) :=
  ⟨rfl, rfl, rfl, fun _ _ => by simp [SharedStore.new, JobStore.new], fun _ => rfl,
    fun _ _ held => by cases held⟩

variable (numbers : Numbers store jobs) (registered : store.Registered)

include numbers

theorem made {address : Nat} (member : address ∈ jobs.byId) (registered : store.Registered) :
    store.Made address :=
  (registered.found _ _ ((numbers.byId _ address).mpr ⟨rfl, member⟩)).1

include registered

theorem inFlight (key : String) : store.inFlight key = jobs.inFlight key := by
  apply Option.ext
  intro address
  rw [inFlight_eq_some, JobStore.inFlight_eq_some, ← numbers.heap]
  simp only [numbers.byKey, numbers.byId, Option.map_eq_some_iff]
  constructor
  · rintro ⟨id, ⟨other, held, named⟩, ⟨rfl, member⟩, live⟩
    have made := numbers.known key other held
    rw [registered.id_injective made (numbers.made member registered) named] at held
    exact ⟨held, member, live⟩
  · rintro ⟨held, member, live⟩
    exact ⟨store.id address, ⟨address, held, rfl⟩, ⟨rfl, member⟩, live⟩

theorem claim (key : String) (now : Nat) :
    (store.claim key now).1 = (jobs.claim key now).1 ∧
      Numbers (store.claim key now).2 (jobs.claim key now).2 := by
  have same := numbers.inFlight registered key
  cases working : jobs.inFlight key with
  | some address =>
      rw [claim_found now (same.trans working), JobStore.claim_found now working]
      refine ⟨rfl, ?_, numbers.attempts, numbers.retainFailed, numbers.byId, numbers.byKey,
        numbers.known⟩
      simp only [SharedStore.update, JobStore.update, numbers.heap]
      rfl
  | none =>
      rw [claim_free now (same.trans working), JobStore.claim_free now working, ← numbers.attempts]
      have old : ∀ {address : Nat}, store.Made address → address ≠ store.attempts :=
        fun made => Nat.ne_of_lt made.2
      refine ⟨rfl, by rw [numbers.heap], rfl, numbers.retainFailed, fun id address => ?_,
        fun other => ?_, fun other address held => ?_⟩
      · have fresh : ∀ address ∈ jobs.byId, address ≠ store.attempts :=
          fun address member => old (numbers.made member registered)
        have unnamed : ∀ address ∈ jobs.byId, store.id address ≠ jobId key store.attempts := by
          intro address member named
          have made := numbers.made member registered
          rw [registered.named address made] at named
          exact old made (jobId_attempt named)
        rw [List.mem_cons]
        by_cases mine : id = jobId key store.attempts
        · subst mine
          simp only [Registry.insert, AList.lookup_insert, Option.some.injEq]
          constructor
          · rintro rfl
            exact ⟨by simp, .inl rfl⟩
          · rintro ⟨named, rfl | member⟩
            · rfl
            · rw [Function.update_of_ne (fresh address member)] at named
              exact absurd named (unnamed address member)
        · simp only [Registry.insert, AList.lookup_insert_ne mine, numbers.byId]
          constructor
          · rintro ⟨named, member⟩
            exact ⟨by rw [Function.update_of_ne (fresh address member), named], .inr member⟩
          · rintro ⟨named, rfl | member⟩
            · exact absurd (by simpa using named.symm) mine
            · rw [Function.update_of_ne (fresh address member)] at named
              exact ⟨named, member⟩
      · by_cases mine : other = key
        · subst mine
          simp [Registry.insert]
        · simp only [Registry.insert, AList.lookup_insert_ne mine, numbers.byKey,
            Function.update_of_ne mine]
          cases held : jobs.byKey other with
          | none => rfl
          | some address =>
              simp [old (numbers.known other address held)]
      · by_cases mine : other = key
        · subst mine
          simp only [Function.update_self, Option.some.injEq] at held
          exact held ▸ ⟨registered.positive, Nat.lt_succ_self _⟩
        · simp only [Function.update_of_ne mine] at held
          have made := numbers.known other address held
          exact ⟨made.1, Nat.lt_succ_of_lt made.2⟩

theorem pointed {key : String} {address : Nat} (held : jobs.byKey key = some address) :
    address ∈ jobs.byId ∧ (jobs.job address).key = key := by
  have named : store.jobs.byKey.lookup key = some (store.id address) := by
    rw [numbers.byKey, held]
    rfl
  obtain ⟨other, present, carries⟩ := registered.pointed key _ named
  obtain ⟨same, member⟩ := (numbers.byId _ other).mp present
  obtain rfl := registered.id_injective (numbers.made member registered)
    (numbers.known key address held) same
  exact ⟨member, numbers.heap ▸ carries⟩

theorem remove_byKey (address : Nat) (key : String) (other : Nat) :
    (jobs.remove address).byKey key = some other ↔
      jobs.byKey key = some other ∧ other ≠ address := by
  constructor
  · intro held
    refine ⟨(jobs.remove_unregisters address).byKey key other held, ?_⟩
    rintro rfl
    obtain ⟨member, rfl⟩ :=
      numbers.pointed registered ((jobs.remove_unregisters other).byKey key other held)
    have present : jobs.get other = true := decide_eq_true member
    have own := (jobs.remove_unregisters other).byKey _ _ held
    simp [JobStore.remove, present, own] at held
  · rintro ⟨held, different⟩
    exact JobStore.remove_byKey held different

theorem remove {address : Nat} (made : store.Made address) :
    Numbers (store.remove (store.id address)).2 (jobs.remove address) := by
  have job := (jobs.remove_unregisters address).job
  have attempts := (jobs.remove_unregisters address).attempts
  have different : ∀ {other : Nat}, store.Made other →
      (store.id other ≠ store.id address ↔ other ≠ address) := fun known =>
    not_congr ⟨registered.id_injective known made, congrArg store.id⟩
  refine ⟨numbers.heap.trans job.symm, numbers.attempts.trans attempts.symm, ?_,
    fun id other => ?_, fun key => ?_, fun key other held => ?_⟩
  · rw [JobStore.remove]
    split <;> exact numbers.retainFailed
  · rw [SharedStore.remove_byId, JobStore.remove_byId]
    split
    · rename_i same
      subst same
      constructor
      · rintro ⟨⟩
      · rintro ⟨named, member, apart⟩
        exact absurd named ((different (numbers.made member registered)).mpr apart)
    · rename_i apart
      rw [numbers.byId]
      constructor
      · rintro ⟨named, member⟩
        exact ⟨named, member,
          (different (numbers.made member registered)).mp (named.symm ▸ apart)⟩
      · rintro ⟨named, member, -⟩
        exact ⟨named, member⟩
  · apply Option.ext
    intro id
    rw [registered.remove_byKey, numbers.byKey]
    simp only [Option.map_eq_some_iff, numbers.remove_byKey registered]
    constructor
    · rintro ⟨⟨other, held, rfl⟩, apart⟩
      exact ⟨other, ⟨held, (different (numbers.known key other held)).mp apart⟩, rfl⟩
    · rintro ⟨other, ⟨held, apart⟩, rfl⟩
      exact ⟨⟨other, held, rfl⟩, (different (numbers.known key other held)).mpr apart⟩
  · exact numbers.known key other ((jobs.remove_unregisters address).byKey key other held)

omit numbers registered in
theorem foldl_remove {addresses : List Nat} {store : SharedStore} {jobs : JobStore String}
    (numbers : Numbers store jobs) (registered : store.Registered)
    (made : ∀ address ∈ addresses, store.Made address) :
    Numbers ((addresses.map store.id).foldl (fun store id => (store.remove id).2) store)
      (addresses.foldl JobStore.remove jobs) := by
  induction addresses generalizing store jobs with
  | nil => exact numbers
  | cons address rest ih =>
      exact ih (numbers.remove registered (made address List.mem_cons_self))
        (registered.remove _) fun other member => made other (List.mem_cons_of_mem _ member)

theorem prune (evicted : Nat → Bool) (now : Nat) :
    Numbers (store.prune evicted now).2 (jobs.prune evicted now) := by
  have stale : ∀ address, store.stale evicted now address = jobs.stale evicted now address := by
    intro address
    simp only [SharedStore.stale, JobStore.stale, numbers.heap, numbers.retainFailed]
    cases (jobs.job address).entry <;> rfl
  have made : ∀ address ∈ jobs.byId.filter (jobs.stale evicted now), store.Made address :=
    fun address member => numbers.made (List.mem_filter.mp member).1 registered
  have folded := numbers.foldl_remove registered made
  -- The two stores go through the stale handles in orders of their own.
  have same : ∀ id, id ∈ store.staleIds evicted now ↔
      id ∈ (jobs.byId.filter (jobs.stale evicted now)).map store.id := by
    intro id
    simp only [mem_staleIds registered, numbers.byId, stale, List.mem_map, List.mem_filter]
    constructor
    · rintro ⟨address, ⟨named, member⟩, old⟩
      exact ⟨address, ⟨member, old⟩, named⟩
    · rintro ⟨address, ⟨member, old⟩, named⟩
      exact ⟨address, ⟨named, member⟩, old⟩
  obtain ⟨byId, byKey⟩ := foldl_remove_lookup (store.staleIds evicted now) registered
  obtain ⟨byId', byKey'⟩ := foldl_remove_lookup
    ((jobs.byId.filter (jobs.stale evicted now)).map store.id) registered
  obtain ⟨maps, kept⟩ := foldl_remove_keeps (store.staleIds evicted now) store
  obtain ⟨maps', kept'⟩ := foldl_remove_keeps
    ((jobs.byId.filter (jobs.stale evicted now)).map store.id) store
  rw [kept] at byId byKey
  rw [kept'] at byId' byKey' folded
  simp only [SharedStore.prune, kept]
  refine ⟨folded.heap, folded.attempts, folded.retainFailed, fun id address => ?_, fun key => ?_,
    folded.known⟩
  · exact (byId id address).trans ((and_congr_right' (not_congr (same id))).trans
      ((byId' id address).symm.trans (folded.byId id address)))
  · refine Eq.trans ?_ (folded.byKey key)
    apply Option.ext
    intro id
    exact (byKey key id).trans ((and_congr_right' (not_congr (same id))).trans
      (byKey' key id).symm)

omit registered in
theorem update (address : Nat) (change : Change) :
    Numbers (store.update address change) (jobs.update address (change.apply address)) := by
  refine ⟨?_, numbers.attempts, numbers.retainFailed, numbers.byId, numbers.byKey, numbers.known⟩
  simp only [SharedStore.update, JobStore.update, numbers.heap]

end Numbers

variable {R Sep : Type}

inductive Stores (store after : JobStore String) : Prop where
  | idle (same : after = store)
  | claimed (key : String) (now : Nat) (same : after = (store.claim key now).2)
  | changed (address : Nat) (change : Change)
      (kept : (store.job address).isTerminal = true →
        (change.apply address (store.job address)).isTerminal = true)
      (same : after = store.update address (change.apply address))
  | removed (address : Nat) (same : after = store.remove address)
  | pruned (evicted : Nat → Bool) (now : Nat) (same : after = store.prune evicted now)

theorem Acts.stores {setting : Setting R Sep} {server after : AppState R Sep}
    {thread next : Thread R Sep} {choice : Choice}
    (acts : Acts setting server thread choice after next) (owned : Owned server)
    (inside : thread ∈ server.threads) : Stores server.store after.store := by
  -- Whoever writes a stage has the job to itself, and it is still open.
  have mine : ∀ {point : Point R Sep} {job : Nat}, thread.point = point → point.held = some job →
      ∀ {change : Change}, (server.store.job job).isTerminal = true →
        (change.apply job (server.store.job job)).isTerminal = true := by
    intro point job here held change ended
    have own := (owned.held job (handlers_pos.mpr ⟨thread, inside, here ▸ held⟩)).2.2
    exact absurd (ended.symm.trans own) (by simp)
  cases acts with
  | joined via request key job here found =>
      exact .claimed key server.clock (by rw [JobStore.claim_found _ found]; rfl)
  | claimed via request key here free =>
      exact .claimed key server.clock (by rw [JobStore.claim_free _ free])
  | answered request job entry here hit =>
      exact .changed job (.complete entry true) (mine here rfl) rfl
  | rejected request job message here =>
      exact .changed job (.fail message) (mine here rfl) rfl
  | submitted via request job position queue here accepted =>
      exact .changed job (.report (Queue.queuedProgress position (position + 1)))
        (mine here rfl) rfl
  | refused request job full here refusal =>
      exact .changed job (.fail (queueFull full.depth)) (mine here rfl) rfl
  | joinedAgain job here => exact .changed job .join id rfl
  | released job client here => exact .changed job .release id rfl
  | removed job here => exact .removed job rfl
  | _ => exact .idle rfl

theorem Works.stores {server after : AppState R Sep} {event : WorkerEvent}
    (works : Works server event after) (owned : Owned server) :
    Stores server.store after.store := by
  have open' : ∀ {claimed : Queue.Claimed Nat R}, server.queue.worker = .separating claimed →
      server.phase ≠ .settled → ∀ {change : Change},
        (server.store.job claimed.work.job).isTerminal = true →
          (change.apply claimed.work.job (server.store.job claimed.work.job)).isTerminal = true := by
    intro claimed busy unsettled change ended
    have runs : server.queue.ledger.running = some claimed.work.job :=
      congrArg (Option.map _) (owned.served.slot claimed busy)
    exact absurd ((owned.running _ runs).mp ended) unsettled
  cases works with
  | progressed claimed progress phase busy before =>
      exact .changed claimed.work.job (.report progress) (open' busy (by simp [before])) rfl
  | cancelled claimed busy before =>
      exact .changed claimed.work.job .cancelled (open' busy (by simp [before])) rfl
  | spoiled claimed message busy before =>
      have unsettled : server.phase ≠ .settled := by
        rcases before with before | before <;> simp [before]
      exact .changed claimed.work.job (.fail message) (open' busy unsettled) rfl
  | completed claimed entry busy before =>
      exact .changed claimed.work.job (.complete entry false) (open' busy (by simp [before])) rfl
  | _ => exact .idle rfl

theorem Move.stores {setting : Setting R Sep} {server after : AppState R Sep}
    {event : Event R Sep} (move : Move setting server event after) (owned : Owned server) :
    Stores server.store after.store := by
  cases move with
  | thread here acts => exact acts.stores owned (List.mem_of_getElem? here)
  | worker works => exact works.stores owned
  | pruned => exact .pruned server.cache.isEvicted server.clock rfl
  | entered | evicted | ticked => exact .idle rfl

theorem Numbers.follow {store : SharedStore} {jobs after : JobStore String}
    (numbers : Numbers store jobs) (registered : store.Registered) (stores : Stores jobs after) :
    Numbers store after ∨ ∃ event next, store.step event = some next ∧ Numbers next after := by
  cases stores with
  | idle same => exact .inl (same ▸ numbers)
  | claimed key now same =>
      exact .inr ⟨.claim key now, _, rfl, same ▸ (numbers.claim registered key now).2⟩
  | changed address change kept same =>
      refine .inr ⟨.change address change, store.update address change, ?_,
        same ▸ numbers.update address change⟩
      rw [SharedStore.step, numbers.heap, if_pos kept]
  | removed address same =>
      by_cases member : address ∈ jobs.byId
      · exact .inr ⟨.remove (store.id address), _, rfl,
          same ▸ numbers.remove registered (numbers.made member registered)⟩
      · have absent : jobs.remove address = jobs := by
          rw [JobStore.remove, if_neg (by simpa [JobStore.get] using member)]
        exact .inl (same.trans absent ▸ numbers)
  | pruned evicted now same =>
      exact .inr ⟨.prune evicted now, _, rfl, same ▸ numbers.prune registered evicted now⟩

/-- Every run of the server is one of the store with the texts. -/
theorem shared_store_of_reaches [DecidableEq Sep] {setting : Setting R Sep} {model : Sep}
    {maxDepth retainFailed : Nat} {server : AppState R Sep}
    (run : (AppState.system setting model maxDepth retainFailed).Reachable server) :
    ∃ store, (SharedStore.system retainFailed).Reachable store ∧ Numbers store server.store := by
  refine run.invariant (P := fun server => ∃ store,
    (SharedStore.system retainFailed).Reachable store ∧ Numbers store server.store)
    ⟨.new retainFailed, .refl, .start retainFailed⟩ ?_
  rintro before event after reached ⟨store, run, numbers⟩ - done
  have stores := (move_of_step done).stores (owned_of_reaches reached)
  rcases numbers.follow (SharedStore.registered_of_reaches run) stores with
    same | ⟨event, next, step, numbers⟩
  · exact ⟨store, run, same⟩
  · exact ⟨next, .tail run trivial step, numbers⟩

/-- The two maps agree, ids are never reused, and `claim` joins what is in flight and
nothing else. -/
structure Consistent (retainFailed : Nat) (store : SharedStore) : Prop where
  unique : ∀ address other, store.Made address → store.Made other →
    store.id address = store.id other → address = other
  lasting : ∀ after, (SharedStore.system retainFailed).Reaches System.Any store after →
    store.Keeps after
  own : ∀ id address, store.jobs.byId.lookup id = some address →
    store.Made address ∧ store.id address = id
  pointed : ∀ key id, store.jobs.byKey.lookup key = some id →
    ∃ address, store.jobs.byId.lookup id = some address ∧ (store.heap address).key = key
  alone : ∀ key id id' address address', store.Live key id address → store.Live key id' address' →
    id = id' ∧ address = address'
  represented : ∀ key id address, store.Live key id address →
    store.jobs.byKey.lookup key = some id
  joins : ∀ key now address, (store.claim key now).1 = .error address ↔
    ∃ id, store.Live key id address
  registers : ∀ key now address after, store.claim key now = (.ok address, after) →
    (∀ id other, ¬store.Live key id other) ∧ ¬store.Made address ∧ after.Made address ∧
      after.heap address = .fresh key now ∧
      (∀ other, store.Made other → store.id other ≠ after.id address) ∧
      after.jobs.byId.lookup (after.id address) = some address ∧
      after.jobs.byKey.lookup key = some (after.id address)

theorem SharedStore.Registered.joins {store : SharedStore} (registered : store.Registered)
    (key : String) (now address : Nat) :
    (store.claim key now).1 = .error address ↔ ∃ id, store.Live key id address := by
  rw [← registered.inFlight_iff]
  cases working : store.inFlight key with
  | none => simp [SharedStore.claim_free now working]
  | some other => simp [SharedStore.claim_found now working]

theorem SharedStore.Registered.registers {store after : SharedStore}
    (registered : store.Registered) {key : String} {now address : Nat}
    (claimed : store.claim key now = (.ok address, after)) :
    (∀ id other, ¬store.Live key id other) ∧ ¬store.Made address ∧ after.Made address ∧
      after.heap address = .fresh key now ∧
      (∀ other, store.Made other → store.id other ≠ after.id address) ∧
      after.jobs.byId.lookup (after.id address) = some address ∧
      after.jobs.byKey.lookup key = some (after.id address) := by
  have kept := registered.claim key now
  cases working : store.inFlight key with
  | some other =>
      rw [SharedStore.claim_found now working] at claimed
      cases claimed
  | none =>
      rw [claimed] at kept
      rw [SharedStore.claim_free now working] at claimed
      cases claimed
      have bounds := And.intro registered.positive (Nat.lt_succ_self store.attempts)
      refine ⟨fun id other live => ?_, fun old => Nat.lt_irrefl _ old.2, bounds, by simp,
        fun other old same => ?_, ?_, by simp [Registry.insert]⟩
      · have found := registered.inFlight_iff.mpr ⟨id, live⟩
        cases working.symm.trans found
      · have apart := Nat.ne_of_lt old.2
        refine apart (kept.id_injective ⟨old.1, Nat.lt_succ_of_lt old.2⟩ bounds ?_)
        exact (Function.update_of_ne apart _ _).trans same
      · have inserted : ∀ id, id = jobId key store.attempts →
            (store.jobs.insert (jobId key store.attempts) key store.attempts).byId.lookup id =
              some store.attempts := by
          rintro id rfl
          exact AList.lookup_insert _
        exact inserted _ (Function.update_self ..)

theorem job_registry [DecidableEq Sep] (setting : Setting R Sep) (model : Sep)
    (maxDepth retainFailed : Nat) :
    (∀ store, (SharedStore.system retainFailed).Reachable store →
      Consistent retainFailed store) ∧
      ∀ server, (AppState.system setting model maxDepth retainFailed).Reachable server →
        ∃ store, (SharedStore.system retainFailed).Reachable store ∧
          Numbers store server.store := by
  constructor
  · intro store reached
    have registered := SharedStore.registered_of_reaches reached
    exact {
      unique := fun address other made made' => registered.id_injective made made'
      lasting := fun after run => SharedStore.keeps_of_reaches run
      own := registered.found
      pointed := registered.pointed
      alone := fun key id id' address address' live live' => registered.live_unique live live'
      represented := registered.live
      joins := registered.joins
      registers := fun key now address after claimed => registered.registers claimed }
  · intro server reached
    exact shared_store_of_reaches reached

/-- A track whose first attempt failed is claimed once more, and the first handle is then
deleted: the key stays with the second. -/
def retriedTrack : List StoreEvent :=
  [.claim "f5a1c0ffee00d1" 0, .change 1 (.fail "decode"), .claim "f5a1c0ffee00d1" 1,
    .remove "f5a1c0ffee00-1", .claim "f5a1c0ffee00d1" 2]

theorem retried_track_is_registered :
    (∃ store, (SharedStore.system 600).Reachable store ∧
        (store.attempts = 3 ∧ store.jobs.byId.lookup "f5a1c0ffee00-1" = none ∧
          store.jobs.byKey.lookup "f5a1c0ffee00d1" = some "f5a1c0ffee00-2" ∧
          (store.heap 2).waiters = 2) ∧
        Consistent 600 store) ∧
      ∃ server, (AppState.system trackSetting "htdemucs" 4 600).Reachable server ∧
        server.store.attempts = 2 ∧
        ∃ store, (SharedStore.system 600).Reachable store ∧ Numbers store server.store := by
  have retried : ∃ store, (SharedStore.system 600).Reachable store ∧
      (store.attempts = 3 ∧ store.jobs.byId.lookup "f5a1c0ffee00-1" = none ∧
        store.jobs.byKey.lookup "f5a1c0ffee00d1" = some "f5a1c0ffee00-2" ∧
        (store.heap 2).waiters = 2) :=
    System.exists_of_replay retriedTrack (by decide)
  have uploaded : ∃ server, (AppState.system trackSetting "htdemucs" 4 600).Reachable server ∧
      server.store.attempts = 2 :=
    System.exists_of_replay (upload 0) (by decide)
  obtain ⟨store, run, held⟩ := retried
  obtain ⟨server, serverRun, made⟩ := uploaded
  have registry := job_registry trackSetting "htdemucs" 4 600
  exact ⟨⟨store, run, held, registry.1 store run⟩, server, serverRun, made,
    registry.2 server serverRun⟩

end Stemd.Server
