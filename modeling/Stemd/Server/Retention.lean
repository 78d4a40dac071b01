import Stemd.Server.Departure

/-! How long a failure can be read.

A job that ends with nothing to hand out stays in the store for some time, so that whoever polls
it hears how it ended. The time is counted from when the job was made. -/

set_option autoImplicit false

namespace Stemd.Server

open Stemd.Core
open Stemd.Semantics

structure Record where
  progress : Progress
  result : Option JobResult
  error : Option String
  entry : Option Nat
  created : Nat

def Job.record {K : Type} (job : Job K) : Record :=
  ⟨job.progress, job.result, job.error, job.entry, job.created⟩

@[simp] theorem Job.join_record {K : Type} (job : Job K) : job.join.record = job.record := rfl

@[simp] theorem Job.release_record {K : Type} (job : Job K) : job.release.record = job.record := rfl

variable {R Sep : Type}

def AppState.record (server : AppState R Sep) (id : Nat) : Record := (server.store.job id).record

def Point.removes : Point R Sep → Option Nat
  | .removing job => some job
  | _ => none

def AppState.removing (server : AppState R Sep) : Event R Sep → Option Nat :=
  server.advancing fun _ point => point.removes

def Spares (id : Nat) (server : AppState R Sep) (event : Event R Sep) : Prop :=
  server.removing event ≠ some id

instance (id : Nat) (server : AppState R Sep) (event : Event R Sep) :
    Decidable (Spares id server event) :=
  inferInstanceAs (Decidable (_ ≠ _))

/-- The job ends here, failed or cancelled, with nothing to hand out. -/
structure EndsEmpty (server after : AppState R Sep) (id : Nat) : Prop where
  live : server.isTerminal id = false
  ended : after.isTerminal id = true
  empty : (after.store.job id).entry = none

instance (server after : AppState R Sep) (id : Nat) : Decidable (EndsEmpty server after id) :=
  decidable_of_iff (server.isTerminal id = false ∧ after.isTerminal id = true ∧
    (after.store.job id).entry = none)
    ⟨fun ends => ⟨ends.1, ends.2.1, ends.2.2⟩, fun ends => ⟨ends.live, ends.ended, ends.empty⟩⟩

def AppState.Reads (server : AppState R Sep) (id : Nat) (record : Record) : Prop :=
  id ∈ server.store.byId ∧ server.record id = record

theorem Acts.record {setting : Setting R Sep} {server after : AppState R Sep}
    {thread next : Thread R Sep} {choice : Choice}
    (acts : Acts setting server thread choice after next) (id : Nat) :
    after.record id = server.record id ∨ thread.point.held = some id ∨
      id = server.store.attempts := by
  -- A handler writes to the job in its hand and to no other.
  have written : ∀ {job : Nat} {point : Point R Sep} (change : Job String → Job String),
      thread.point = point → point.held = some job →
        (server.change job change).record id = server.record id ∨
          thread.point.held = some id := by
    intro job point change here held
    by_cases same : id = job
    · exact .inr (by rw [here, held, same])
    · exact .inl (by simp [AppState.record, AppState.change, same])
  cases acts with
  | claimed via request key point free =>
      by_cases fresh : id = server.store.attempts
      · exact .inr (.inr fresh)
      · exact .inl (by simp [AppState.record, fresh])
  | answered request job entry point hit =>
      exact (written (·.complete job entry true) point rfl).imp_right .inl
  | rejected request job message point =>
      exact (written (·.fail message) point rfl).imp_right .inl
  | refused request job full point refusal =>
      exact (written (·.fail (queueFull full.depth)) point rfl).imp_right .inl
  | submitted via request job position queue point accepted =>
      exact (written (·.setProgress (Queue.queuedProgress position (position + 1))) point
        rfl).imp_right .inl
  | joined via request key job point found =>
      exact .inl (read_update Job.record rfl (fun j => j.join_record) id)
  | joinedAgain job point => exact .inl (read_update Job.record rfl (fun j => j.join_record) id)
  | released job client point =>
      exact .inl (read_update Job.record rfl (fun j => j.release_record) id)
  | removed job point =>
      exact .inl (congrArg (fun jobs => (jobs id).record)
        (server.store.remove_unregisters job).job)
  | _ => exact .inl rfl

theorem Works.record {server after : AppState R Sep} {event : WorkerEvent}
    (works : Works server event after) (served : server.queue.Served) (id : Nat) :
    after.record id = server.record id ∨ server.queue.ledger.running = some id ∧
      server.phase ≠ .settled := by
  have written : ∀ {claimed : Queue.Claimed Nat R} (change : Job String → Job String),
      server.queue.worker = .separating claimed → server.phase ≠ .settled →
        (server.change claimed.work.job change).record id = server.record id ∨
          server.queue.ledger.running = some id ∧ server.phase ≠ .settled := by
    intro claimed change busy going
    by_cases same : id = claimed.work.job
    · rw [same]
      exact .inr ⟨congrArg (Option.map _) (served.slot claimed busy), going⟩
    · exact .inl (by simp [AppState.record, AppState.change, same])
  cases works with
  | progressed claimed progress _ busy before _ _ =>
      exact written (·.setProgress progress) busy (by simp [before])
  | cancelled claimed busy before _ => exact written Job.cancelled busy (by simp [before])
  | spoiled claimed message busy before _ =>
      refine written (·.fail message) busy ?_
      rcases before with before | before <;> simp [before]
  | completed claimed entry busy before =>
      exact written (·.complete claimed.work.job entry false) busy (by simp [before])
  | _ => exact .inl rfl

/-- What has ended is never written to again. -/
theorem Owned.record_kept {setting : Setting R Sep} {server after : AppState R Sep}
    {event : Event R Sep} (owned : Owned server) (move : Move setting server event after)
    {id : Nat} (known : id < server.store.attempts) (ended : server.isTerminal id = true) :
    after.record id = server.record id := by
  cases move with
  | @thread index choice thread next moved here acts =>
      rcases acts.record id with same | mine | fresh
      · exact same
      -- What a handler still has in hand has not ended.
      · have some := handlers_pos.mpr ⟨thread, List.mem_of_getElem? here, mine⟩
        exact absurd (ended.symm.trans (owned.held id some).2.2) (by simp)
      · exact absurd fresh (Nat.ne_of_lt known)
  | worker works =>
      rcases works.record owned.served id with same | ⟨runs, going⟩
      · exact same
      · exact absurd ((owned.running id runs).mp ended) going
  | entered | evicted | ticked => rfl
  | pruned =>
      have unregisters := server.store.prune_unregisters server.cache.isEvicted server.clock
      exact congrArg (fun jobs => (jobs id).record) unregisters.job

theorem Move.created {setting : Setting R Sep} {server after : AppState R Sep}
    {event : Event R Sep} (move : Move setting server event after) {id : Nat}
    (known : id < server.store.attempts) :
    (after.store.job id).created = (server.store.job id).created := by
  have kept {job : Nat} (change : Job String → Job String)
      (same : ∀ job, (change job).created = job.created) :
      ((server.change job change).store.job id).created = (server.store.job id).created :=
    read_update Job.created rfl same id
  cases move with
  | thread here acts =>
      cases acts with
      | claimed via request key point free =>
          exact congrArg Job.created (Function.update_of_ne (Nat.ne_of_lt known) ..)
      | joined => exact kept (·.join) fun _ => rfl
      | joinedAgain => exact kept (·.join) fun _ => rfl
      | released => exact kept (·.release) fun _ => rfl
      | answered request job entry => exact kept (·.complete job entry true) fun _ => rfl
      | rejected request job message => exact kept (·.fail message) fun _ => rfl
      | refused request job full => exact kept (·.fail (queueFull full.depth)) fun _ => rfl
      | submitted via request job position =>
          exact kept (·.setProgress (Queue.queuedProgress position (position + 1))) fun _ => rfl
      | removed job point =>
          exact congrArg (fun jobs => (jobs id).created)
            (server.store.remove_unregisters job).job
      | _ => rfl
  | worker works =>
      cases works with
      | progressed claimed progress => exact kept (·.setProgress progress) fun _ => rfl
      | cancelled => exact kept Job.cancelled fun _ => rfl
      | spoiled claimed message => exact kept (·.fail message) fun _ => rfl
      | completed claimed entry =>
          exact kept (·.complete claimed.work.job entry false) fun _ => rfl
      | _ => rfl
  | pruned =>
      exact congrArg (fun jobs => (jobs id).created)
        (server.store.prune_unregisters server.cache.isEvicted server.clock).job
  | entered | evicted | ticked => rfl

namespace JobStore

variable {K : Type} [DecidableEq K]

theorem remove_retainFailed (store : JobStore K) (id : Nat) :
    (store.remove id).retainFailed = store.retainFailed := by
  unfold remove
  split <;> rfl

theorem prune_retainFailed (store : JobStore K) (evicted : Nat → Bool) (now : Nat) :
    (store.prune evicted now).retainFailed = store.retainFailed := by
  unfold prune
  generalize store.byId.filter _ = ids
  induction ids generalizing store with
  | nil => rfl
  | cons id rest ih => exact (ih (store.remove id)).trans (store.remove_retainFailed id)

theorem foldl_remove_drops {ids : List Nat} (store : JobStore K) {id : Nat} (member : id ∈ ids) :
    id ∉ (ids.foldl remove store).byId := by
  induction ids generalizing store with
  | nil => cases member
  | cons first rest ih =>
      rcases List.mem_cons.mp member with rfl | later
      · intro kept
        have still := (foldl_remove_unregisters rest (store.remove id)).byId id kept
        exact ((store.remove_byId id id).mp still).2 rfl
      · exact ih (store.remove first) later

theorem prune_drops {store : JobStore K} {evicted : Nat → Bool} {now id : Nat}
    (stale : store.stale evicted now id = true) : id ∉ (store.prune evicted now).byId := by
  intro kept
  have member := (store.prune_unregisters evicted now).byId id kept
  exact store.foldl_remove_drops (List.mem_filter.mpr ⟨member, stale⟩) kept

omit [DecidableEq K] in
/-- What ended with nothing to hand out goes by how long ago it was made. -/
theorem stale_of_empty {store : JobStore K} {id : Nat} (ended : (store.job id).isTerminal = true)
    (empty : (store.job id).entry = none) (evicted : Nat → Bool) (now : Nat) :
    store.stale evicted now id =
      decide (store.retainFailed < now - (store.job id).created) := by
  rw [stale, ended, empty]
  rfl

end JobStore

structure Proceeds (server after : AppState R Sep) : Prop where
  clock : server.clock ≤ after.clock
  retainFailed : after.store.retainFailed = server.store.retainFailed
  registered : ∀ id ∈ after.store.byId, id ∈ server.store.byId ∨
    id = server.store.attempts ∧ after.store.attempts = server.store.attempts + 1

theorem Move.proceeds {setting : Setting R Sep} {server after : AppState R Sep}
    {event : Event R Sep} (move : Move setting server event after) : Proceeds server after := by
  cases move with
  | thread here acts =>
      cases acts with
      | claimed via request key point free =>
          refine ⟨Nat.le_refl _, rfl, fun id member => ?_⟩
          rcases List.mem_cons.mp member with rfl | old
          · exact .inr ⟨rfl, rfl⟩
          · exact .inl old
      | removed job point =>
          exact ⟨Nat.le_refl _, server.store.remove_retainFailed job,
            fun id member => .inl ((server.store.remove_unregisters job).byId id member)⟩
      | _ => exact ⟨Nat.le_refl _, rfl, fun _ member => .inl member⟩
  | worker works =>
      cases works <;> exact ⟨Nat.le_refl _, rfl, fun _ member => .inl member⟩
  | pruned =>
      exact ⟨Nat.le_refl _, server.store.prune_retainFailed _ _,
        fun id member => .inl ((server.store.prune_unregisters _ _).byId id member)⟩
  | ticked => exact ⟨Nat.le_succ _, rfl, fun _ member => .inl member⟩
  | entered | evicted => exact ⟨Nat.le_refl _, rfl, fun _ member => .inl member⟩

/-- Only a `DELETE` and the housekeeping take a job out of the store. -/
theorem Move.keeps_registered {setting : Setting R Sep} {server after : AppState R Sep}
    {event : Event R Sep} (move : Move setting server event after) {id : Nat}
    (spared : Spares id server event)
    (fresh : server.store.stale server.cache.isEvicted server.clock id = false)
    (member : id ∈ server.store.byId) : id ∈ after.store.byId := by
  cases move with
  | @thread index choice thread next moved here acts =>
      cases acts with
      | claimed via request key point free => exact List.mem_cons_of_mem _ member
      | removed job point =>
          refine (JobStore.remove_byId ..).mpr ⟨member, ?_⟩
          rintro rfl
          exact spared (advancing_eq_some.mpr ⟨index, _, thread, rfl, here, by rw [point]; rfl⟩)
      | _ => exact member
  | worker works => cases works <;> exact member
  | pruned => exact (JobStore.prune_keeps fresh).1.mpr member
  | entered | evicted | ticked => exact member

structure Shelved (retainFailed : Nat) (server : AppState R Sep) : Prop where
  retainFailed : server.store.retainFailed = retainFailed
  numbered : ∀ id ∈ server.store.byId, id < server.store.attempts

theorem Shelved.move {setting : Setting R Sep} {retainFailed : Nat} {server after : AppState R Sep}
    {event : Event R Sep} (shelved : Shelved retainFailed server)
    (move : Move setting server event after) : Shelved retainFailed after := by
  refine ⟨move.proceeds.retainFailed.trans shelved.retainFailed, fun id member => ?_⟩
  rcases move.proceeds.registered id member with old | ⟨rfl, more⟩
  · exact Nat.lt_of_lt_of_le (shelved.numbered id old) move.carries.attempts
  · exact more ▸ Nat.lt_succ_self _

theorem EndsEmpty.clock {setting : Setting R Sep} {server after : AppState R Sep}
    {event : Event R Sep} {id : Nat} (ends : EndsEmpty server after id)
    (move : Move setting server event after) : after.clock = server.clock := by
  cases move with
  | thread here acts => cases acts <;> rfl
  | worker works => cases works <;> rfl
  | ticked => cases ends.live.symm.trans ends.ended
  | entered | evicted | pruned => rfl

variable [DecidableEq Sep]

theorem shelved_of_reaches {setting : Setting R Sep} {model : Sep} {maxDepth retainFailed : Nat}
    {ok : AppState R Sep → Event R Sep → Prop} {server : AppState R Sep}
    (run : (AppState.system setting model maxDepth retainFailed).Reaches ok
      (.start model maxDepth retainFailed) server) : Shelved retainFailed server :=
  run.invariant ⟨rfl, by simp [AppState.start, JobStore.new]⟩
    fun _ _ _ _ shelved _ done => shelved.move (move_of_step done)

theorem pruned_later (setting : Setting R Sep) (model : Sep) (maxDepth retainFailed : Nat)
    (id : Nat) (server : AppState R Sep) (wait : Nat) :
    ∃ later, (AppState.system setting model maxDepth retainFailed).Reaches (Spares id) server
        later ∧ later.clock = server.clock + wait ∧
      later.store = server.store.prune server.cache.isEvicted (server.clock + wait) := by
  have waited : ∃ later, (AppState.system setting model maxDepth retainFailed).Reaches (Spares id)
      server later ∧ later = { server with clock := server.clock + wait } := by
    induction wait with
    | zero => exact ⟨server, .refl, rfl⟩
    | succ wait ih =>
        obtain ⟨later, run, rfl⟩ := ih
        exact ⟨_, .tail (a := .tick) run nofun rfl, rfl⟩
  obtain ⟨later, run, rfl⟩ := waited
  exact ⟨_, .tail (a := .prune) run nofun rfl, rfl, rfl⟩

theorem EndsEmpty.spares {setting : Setting R Sep} {server after : AppState R Sep}
    {event : Event R Sep} {id : Nat} (ends : EndsEmpty server after id)
    (done : server.step setting event = some after) : Spares id server event := by
  intro removing
  obtain ⟨index, choice, thread, rfl, here, removes⟩ := advancing_eq_some.mp removing
  have point : thread.point = .removing id := by
    unfold Point.removes at removes
    split at removes <;> cases removes
    assumption
  obtain ⟨moved, next, act, rfl⟩ := act_of_step here done
  have store := (acts_of_act act).removing point
  have same : moved.isTerminal id = server.isTerminal id := by
    rw [AppState.isTerminal, store, (server.store.remove_unregisters id).job]
    rfl
  cases same.symm.trans ends.ended |>.symm.trans ends.live

/-- A job that ends with nothing to hand out can be read for as long as was promised, unless it is
deleted, exactly if it ended about when it was made. -/
theorem failure_stays_readable_iff (setting : Setting R Sep) (model : Sep)
    (maxDepth retainFailed : Nat) {server after : AppState R Sep} {event : Event R Sep} {id : Nat}
    (run : (AppState.system setting model maxDepth retainFailed).Reachable server)
    (known : id ∈ server.store.byId) (done : server.step setting event = some after)
    (ends : EndsEmpty server after id) :
    (∀ later, (AppState.system setting model maxDepth retainFailed).Reaches (Spares id) after
        later → later.clock < after.clock + retainFailed → later.Reads id (after.record id)) ↔
      retainFailed = 0 ∨ server.clock ≤ (server.store.job id).created + 1 := by
  have move := move_of_step done
  have shelved := shelved_of_reaches run
  have made := move.created (shelved.numbered id known)
  have run' := System.Reaches.tail run trivial done
  have terms := (shelved.move move).retainFailed
  have here : id ∈ after.store.byId :=
    move.keeps_registered (ends.spares done) (JobStore.prune_keeps_live ends.live) known
  have time := ends.clock move
  constructor
  · intro readable
    by_contra late
    simp only [not_or, not_le] at late
    -- The housekeeping comes by as soon as the job has been there for too long.
    obtain ⟨later, rest, when, store⟩ := pruned_later setting model maxDepth retainFailed id after
      ((server.store.job id).created + retainFailed + 1 - after.clock)
    refine absurd (readable later rest (by omega)).1 ?_
    rw [store]
    refine JobStore.prune_drops ?_
    rw [JobStore.stale_of_empty ends.ended ends.empty, terms, made]
    exact decide_eq_true (by omega)
  -- Whenever the housekeeping comes by until then, the job is young enough to stay.
  · intro soon later rest
    refine (rest.invariant (P := fun later => after.clock ≤ later.clock ∧
      (later.clock < after.clock + retainFailed → later.Reads id (after.record id)))
      ⟨Nat.le_refl _, fun _ => ⟨here, rfl⟩⟩ fun before event next path holds spared done => ?_).2
    have move := move_of_step done
    have passed := move.proceeds.clock
    refine ⟨holds.1.trans passed, fun early => ?_⟩
    obtain ⟨member, same⟩ := holds.2 (Nat.lt_of_le_of_lt passed early)
    have whole := run'.trans path.any
    have shelved := shelved_of_reaches whole
    have ended : before.isTerminal id = true :=
      (congrArg (fun record => record.progress.stage.isTerminal) same).trans ends.ended
    have empty : (before.store.job id).entry = none := (congrArg Record.entry same).trans ends.empty
    have born : (before.store.job id).created = (server.store.job id).created :=
      (congrArg Record.created same).trans made
    have fresh : before.store.stale before.cache.isEvicted before.clock id = false := by
      rw [JobStore.stale_of_empty ended empty, shelved.retainFailed, born]
      exact decide_eq_false (by omega)
    exact ⟨move.keeps_registered spared fresh member,
      ((owned_of_reaches whole).record_kept move (shelved.numbered id member) ended).trans same⟩

/-- An upload that does not decode fails at once, and the reason can be read for a minute. -/
theorem undecoded_upload_stays_readable :
    ∃ server after : AppState Unit String, EndsEmpty server after 1 ∧
      ∀ later, (AppState.system trackSetting "htdemucs" 4 60).Reaches (Spares 1) after later →
        later.clock < after.clock + 60 → later.Reads 1 (after.record 1) := by
  have decoding : ∃ server : AppState Unit String,
      (AppState.system trackSetting "htdemucs" 4 60).Reachable server ∧ 1 ∈ server.store.byId ∧
        server.clock = 0 ∧ (server.step trackSetting (.advance 0 (.rejected "no audio"))).any
          (fun after => decide (EndsEmpty server after 1)) = true :=
    System.exists_of_replay (.arrive .upload () :: List.replicate 3 (.advance 0 .plain))
      (by decide)
  obtain ⟨server, run, known, start, failed⟩ := decoding
  obtain ⟨after, done, ends⟩ := (Option.any_eq_true _ _).mp failed
  refine ⟨server, after, of_decide_eq_true ends, ?_⟩
  exact (failure_stays_readable_iff trackSetting "htdemucs" 4 60 run known done
    (of_decide_eq_true ends)).mpr (.inr (start ▸ Nat.zero_le _))

/-- A job waits for a minute and fails when its turn comes: the next round of housekeeping takes
it away at once. -/
theorem late_failure_is_pruned :
    ∃ server after later : AppState Unit String,
      (AppState.system trackSetting "htdemucs" 4 60).Reachable server ∧
      1 ∈ server.store.byId ∧
      server.step trackSetting (.worker (.failed "out of memory")) = some after ∧
      EndsEmpty server after 1 ∧
      (AppState.system trackSetting "htdemucs" 4 60).Reaches (Spares 1) after later ∧
      later.clock < after.clock + 60 ∧ ¬ later.Reads 1 (after.record 1) := by
  have waited : ∃ server : AppState Unit String,
      (AppState.system trackSetting "htdemucs" 4 60).Reachable server ∧ 1 ∈ server.store.byId ∧
        (server.step trackSetting (.worker (.failed "out of memory"))).any (fun after =>
          decide (EndsEmpty server after 1) &&
            ((AppState.system trackSetting "htdemucs" 4 60).replay (Spares 1) after [.prune]).any
              fun later => decide (later.clock < after.clock + 60 ∧ 1 ∉ later.store.byId)) = true :=
    System.exists_of_replay (upload 0 ++ List.replicate 61 .tick ++ [.worker .next]) (by decide)
  obtain ⟨server, run, known, failed⟩ := waited
  obtain ⟨after, done, ended⟩ := (Option.any_eq_true _ _).mp failed
  obtain ⟨ends, pruned⟩ := Bool.and_eq_true_iff.mp ended
  obtain ⟨later, rest, gone⟩ := (Option.any_eq_true _ _).mp pruned
  obtain ⟨early, gone⟩ := of_decide_eq_true gone
  exact ⟨server, after, later, run, known, done, of_decide_eq_true ends,
    System.reaches_of_replay rest, early, fun reads => gone reads.1⟩

end Stemd.Server
