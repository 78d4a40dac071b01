import Stemd.Core.Bar
import Stemd.Queue.Fifo
import Stemd.Server.Once
import Stemd.Server.Retention

/-! The fractions that a client reads of one job, poll after poll.

While a job waits a poll is answered from its place in the queue, and otherwise from what was
written to the job last. Nothing holds these together: a poll looks at the job, lets it go, and then
looks at the queue. -/

set_option autoImplicit false

namespace Stemd.Server

open Stemd.Core
open Stemd.Semantics

variable {R Sep : Type}

/-- `live_view`: the job as it was seen, and the queue as it is now if the job was waiting. -/
def AppState.liveView (seen now : AppState R Sep) (id : Nat) : Progress :=
  let progress := (seen.store.job id).progress
  if progress.stage = .queued then (now.queue.queuedProgressFor id).getD progress else progress

def AppState.reported (server : AppState R Sep) (id : Nat) : Event R Sep → Option Progress
  | .worker (.report progress) => match server.queue.worker with
      | .separating claimed => if claimed.work.job = id then some progress else none
      | _ => none
  | _ => none

def reports (state : Nat → AppState R Sep) (event : Nat → Event R Sep) (id n : Nat) :
    List Progress :=
  (List.range n).filterMap fun i => (state i).reported id (event i)

/-- Polls of a job in a run of so many steps, one after the other, each of which finds it in the
store: what they read is a share, and no less than what was read before. -/
def NeverFalls (state : Nat → AppState R Sep) (n id : Nat) : Prop :=
  ∀ i j, i ≤ j → j ≤ n → id ∈ (state i).store.byId →
    0 ≤ ((state i).liveView (state j) id).fraction ∧
    ((state i).liveView (state j) id).fraction ≤ 1 ∧
    ∀ k l, j ≤ k → k ≤ l → l ≤ n → id ∈ (state k).store.byId →
      ((state i).liveView (state j) id).fraction ≤ ((state k).liveView (state l) id).fraction

/-- Whenever the job joins the queue it finds nobody waiting. -/
def FindsNobody (state : Nat → AppState R Sep) (n id : Nat) : Prop :=
  ∀ i < n, id ∉ (state i).queue.waiting → id ∈ (state (i + 1)).queue.waiting →
    (state i).queue.waiting = []

theorem reports_succ (state : Nat → AppState R Sep) (event : Nat → Event R Sep) (id n : Nat) :
    reports state event id (n + 1) =
      reports state event id n ++ ((state n).reported id (event n)).toList := by
  rw [reports, List.range_succ, List.filterMap_append, List.filterMap_cons, List.filterMap_nil]
  cases (state n).reported id (event n) <;> rfl

section

variable {position total : Nat}

theorem queuedProgress_fraction (position total : Nat) :
    (Queue.queuedProgress position total).fraction =
      (if total % 2 ^ 32 = 0 then (0 : ℚ)
        else ((position % 2 ^ 32 : Nat) : ℚ) / ((total % 2 ^ 32 : Nat) : ℚ)) * (2 / 100) := by
  have zero : UInt32.ofNat total = 0 ↔ total % 2 ^ 32 = 0 := by
    rw [← UInt32.toNat_inj, UInt32.toNat_ofNat']
    rfl
  simp only [Queue.queuedProgress, Progress.withDetail, Progress.counted, stageFloor, stageCeiling,
    UInt32.toNat_ofNat', zero, zero_add, sub_zero]

theorem queuedProgress_next (total : Nat) : (Queue.queuedProgress 0 total).fraction = 0 := by
  rw [queuedProgress_fraction]
  simp

/-- Nothing is shown of a wait only where a count is lost in its 32 bits, or there is none. -/
theorem queuedProgress_pos (ahead : position % 2 ^ 32 ≠ 0) (waiting : total % 2 ^ 32 ≠ 0) :
    0 < (Queue.queuedProgress position total).fraction := by
  rw [queuedProgress_fraction, if_neg waiting]
  have ahead : (0 : ℚ) < ((position % 2 ^ 32 : Nat) : ℚ) := by
    exact_mod_cast Nat.pos_of_ne_zero ahead
  have waiting : (0 : ℚ) < ((total % 2 ^ 32 : Nat) : ℚ) := by
    exact_mod_cast Nat.pos_of_ne_zero waiting
  positivity

end

theorem Move.shifts {setting : Setting R Sep} {server after : AppState R Sep}
    {event : Event R Sep} (move : Move setting server event after) (served : server.queue.Served) :
    Shifts server.queue.waiting after.queue.waiting := by
  rcases move.queue with same | ⟨action, step⟩
  · exact same ▸ .stays _
  · exact Queue.Inner.shifts_step served step

theorem Move.leaves {setting : Setting R Sep} {server after : AppState R Sep}
    {event : Event R Sep} (move : Move setting server event after) (served : server.queue.Served)
    {id : Nat} (stood : id ∈ server.queue.waiting) (left : id ∉ after.queue.waiting) :
    id ∈ after.queue.history.removed ∨ server.queue.waiting.idxOf id = 0 := by
  rcases move.queue with same | ⟨action, step⟩
  · exact absurd (same ▸ stood) left
  · exact Queue.Inner.left_step served step stood left

inductive Writes (server after : AppState R Sep) (thread : Thread R Sep) (id : Nat) : Prop where
  | kept (same : (after.store.job id).progress = (server.store.job id).progress)
      (numbered : server.store.attempts ≤ id → after.store.attempts ≤ id)
  | made (is : id = server.store.attempts) (shown : (after.store.job id).progress = .new .queued)
      (numbered : id < after.store.attempts)
  | joined (mine : thread.point.held = some id)
      (waits : after.queue.waiting = server.queue.waiting ++ [id])
      (shown : (after.store.job id).progress = Queue.queuedProgress server.queue.waiting.length
        (server.queue.waiting.length + 1))
  | ended (mine : thread.point.held = some id) (closed : after.isTerminal id = true)
      (full : (after.store.job id).progress.fraction = 1)

theorem Acts.writes {setting : Setting R Sep} {server after : AppState R Sep}
    {thread next : Thread R Sep} {choice : Choice}
    (acts : Acts setting server thread choice after next) (id : Nat) :
    Writes server after thread id := by
  have kept {job : Nat} (change : Job String → Job String)
      (same : ∀ job, (change job).progress = job.progress) :
      ((server.change job change).store.job id).progress = (server.store.job id).progress :=
    read_update Job.progress rfl same id
  have ends {job : Nat} {point : Point R Sep} (change : Job String → Job String)
      (here : thread.point = point) (held : point.held = some job)
      (closed : ∀ job, (change job).isTerminal = true ∧ (change job).progress.fraction = 1) :
      Writes server (server.change job change) thread id := by
    by_cases same : id = job
    · refine .ended (by rw [here, held, same]) ?_ ?_ <;>
        simp [AppState.isTerminal, AppState.change, same, closed]
    · exact .kept (by simp [AppState.change, same]) fun old => old
  cases acts with
  | claimed via request key point free =>
      by_cases fresh : id = server.store.attempts
      · exact .made fresh (by simp [fresh, Job.fresh]) (fresh ▸ Nat.lt_succ_self _)
      · refine .kept (by simp [fresh]) fun old => ?_
        exact Nat.lt_of_le_of_ne old (Ne.symm fresh)
  | answered request job entry point hit =>
      exact ends (·.complete job entry true) point rfl fun _ => ⟨rfl, rfl⟩
  | rejected request job message point =>
      exact ends (·.fail message) point rfl fun _ => ⟨rfl, rfl⟩
  | refused request job full point refusal =>
      exact ends (·.fail (queueFull full.depth)) point rfl fun _ => ⟨rfl, rfl⟩
  -- The one place where a thread writes a share that is not an end.
  | submitted via request job position queue point accepted =>
      obtain ⟨rfl, waits⟩ := Queue.submit_position accepted
      by_cases same : id = job
      · refine .joined (by rw [point, same]; rfl) (by rw [same]; exact waits) ?_
        simp [AppState.change, same, Job.setProgress]
      · exact .kept (by simp [AppState.change, same]) fun old => old
  | joined via request key job point found =>
    exact .kept (kept (·.join) fun _ => rfl) fun old => old
  | joinedAgain job point => exact .kept (kept (·.join) fun _ => rfl) fun old => old
  | released job client point => exact .kept (kept (·.release) fun _ => rfl) fun old => old
  | removed job point =>
      have store := server.store.remove_unregisters job
      exact .kept (congrArg (fun jobs => (jobs id).progress) store.job)
        fun old => store.attempts.trans_le old
  | _ => exact .kept rfl fun old => old

/-- What can be read of a job, by what has been reported for it so far, as long as it never waits
behind another. -/
inductive Shows (server : AppState R Sep) (id : Nat) : List Progress → Prop where
  | unmade (fresh : server.store.attempts ≤ id) : Shows server id []
  | starts (known : id < server.store.attempts)
      (queued : (server.store.job id).progress.stage = .queued)
      (empty : (server.store.job id).progress.fraction = 0)
      (phase : server.queue.ledger.running = some id → server.phase = .separating) :
      Shows server id []
  | separating {before : List Progress} {progress : Progress}
      (runs : server.queue.ledger.running = some id) (phase : server.phase = .separating)
      (shown : (server.store.job id).progress = progress) : Shows server id (before ++ [progress])
  | writing {before : List Progress} (runs : server.queue.ledger.running = some id)
      (phase : server.phase = .writing ∨ ∃ entry, server.phase = .published entry)
      (shown : (server.store.job id).progress = .new .writing) : Shows server id before
  | ended {before : List Progress} (known : id < server.store.attempts)
      (closed : server.isTerminal id = true)
      (full : (server.store.job id).progress.fraction = 1) : Shows server id before

def AppState.bar (server : AppState R Sep) (id : Nat) : ℚ := (server.store.job id).progress.fraction

theorem Shows.bounds {server : AppState R Sep} {id : Nat} {before : List Progress}
    (shows : Shows server id before) (rises : Rises (2 / 100) (90 / 100) before)
    (known : id < server.store.attempts) : 0 ≤ server.bar id ∧ server.bar id ≤ 1 := by
  unfold AppState.bar
  cases shows with
  | unmade fresh => exact absurd known (Nat.not_lt.mpr fresh)
  | starts _ queued empty phase => exact empty.symm ▸ ⟨le_refl _, zero_le_one⟩
  | separating runs phase shown =>
      have inside := rises.inside _ (List.mem_append_right _ (List.mem_singleton_self _))
      rw [shown]
      constructor <;> linarith [inside.2.1, inside.2.2]
  | writing runs phase shown =>
      rw [shown]
      norm_num [Progress.new, stageFloor]
  | ended _ closed full => exact full.symm ▸ ⟨zero_le_one, le_refl _⟩

theorem Shows.empty {server : AppState R Sep} {id : Nat} {before : List Progress}
    (shows : Shows server id before) (rises : Rises (2 / 100) (90 / 100) before)
    (known : id < server.store.attempts)
    (queued : (server.store.job id).progress.stage = .queued) : server.bar id = 0 := by
  cases shows with
  | unmade fresh => exact absurd known (Nat.not_lt.mpr fresh)
  | starts _ _ empty _ => exact empty
  | separating runs phase shown =>
      have inside := rises.inside _ (List.mem_append_right _ (List.mem_singleton_self _))
      exact absurd (shown ▸ queued) inside.1
  | writing runs phase shown =>
      rw [shown] at queued
      cases queued
  | ended _ closed full =>
      rw [AppState.isTerminal, Job.isTerminal, queued] at closed
      cases closed

theorem Shows.frame {server after : AppState R Sep} {id : Nat} {before : List Progress}
    (shows : Shows server id before)
    (same : (after.store.job id).progress = (server.store.job id).progress)
    (numbered : server.store.attempts ≤ id → after.store.attempts ≤ id)
    (more : server.store.attempts ≤ after.store.attempts)
    (running : after.queue.ledger.running = server.queue.ledger.running)
    (phase : after.phase = server.phase) : Shows after id before := by
  cases shows with
  | unmade fresh => exact .unmade (numbered fresh)
  | starts known queued empty going =>
      exact .starts (known.trans_le more) (same ▸ queued) (same ▸ empty)
        fun runs => phase.trans (going (running ▸ runs))
  | separating runs going shown =>
      exact .separating (running.trans runs) (phase.trans going) (same.trans shown)
  | writing runs going shown =>
      exact .writing (running.trans runs) (phase ▸ going) (same.trans shown)
  | ended known closed full =>
      refine .ended (known.trans_le more) ?_ (same ▸ full)
      exact (congrArg (fun progress => progress.stage.isTerminal) same).trans closed

theorem Owned.running_known {server : AppState R Sep} (owned : Owned server) {id : Nat}
    (runs : server.queue.ledger.running = some id) :
    id ∈ server.queue.history.accepted ∧ id < server.store.attempts := by
  have there : server.queue.ledger.At id .running := runs
  have queued := owned.sound.at_accepted there
  exact ⟨queued, owned.accepted id queued⟩

theorem Owned.waiting_known {server : AppState R Sep} (owned : Owned server) {id : Nat}
    (waits : id ∈ server.queue.waiting) :
    id ∈ server.queue.history.accepted ∧ id < server.store.attempts := by
  have there : server.queue.ledger.At id .waiting := waits
  have queued := owned.sound.at_accepted there
  exact ⟨queued, owned.accepted id queued⟩

theorem Shows.act {setting : Setting R Sep} {server after : AppState R Sep}
    {thread next : Thread R Sep} {choice : Choice} {index id : Nat} {before : List Progress}
    (shows : Shows server id before) (owned : Owned server)
    (rises : Rises (2 / 100) (90 / 100) before) (here : server.threads[index]? = some thread)
    (acts : Acts setting server thread choice after next)
    (alone : id ∉ server.queue.waiting → id ∈ after.queue.waiting → server.queue.waiting = []) :
    Shows after id before ∧ (id < server.store.attempts → server.bar id ≤ after.bar id) := by
  obtain ⟨running, phase⟩ := acts.running owned.served
  have more := acts.carries.attempts
  have handled (mine : thread.point.held = some id) :=
    owned.held id (handlers_pos.mpr ⟨thread, List.mem_of_getElem? here, mine⟩)
  -- What a handler has still in hand has not been queued, let alone taken by the worker.
  have untaken (mine : thread.point.held = some id) : server.queue.ledger.running ≠ some id :=
    fun runs => (handled mine).2.1 (owned.running_known runs).1
  cases acts.writes id with
  | kept same numbered =>
      exact ⟨shows.frame same numbered more running phase,
        fun _ => (congrArg Progress.fraction same).ge⟩
  | made is shown numbered =>
      refine ⟨?_, fun known => absurd is (Nat.ne_of_lt known)⟩
      cases shows with
      | unmade fresh =>
          refine .starts numbered (by rw [shown]; rfl) (by rw [shown]; rfl) fun runs => ?_
          exact absurd (owned.running_known (running ▸ runs)).2 (Nat.not_lt.mpr fresh)
      | starts known _ _ _ | ended known _ _ => exact absurd is (Nat.ne_of_lt known)
      | separating runs _ _ | writing runs _ _ =>
          exact absurd is (Nat.ne_of_lt (owned.running_known runs).2)
  | joined mine waits shown =>
      obtain ⟨known, unqueued, live⟩ := handled mine
      have absent : id ∉ server.queue.waiting := fun member =>
        unqueued (owned.waiting_known member).1
      -- With nobody ahead the place is zero, and so is the share.
      have nobody := alone absent (waits ▸ List.mem_append_right _ (List.mem_singleton_self id))
      rw [nobody] at shown
      cases shows with
      | starts _ _ empty _ =>
          refine ⟨.starts (known.trans_le more) (by rw [shown]; rfl)
            (by rw [shown]; exact queuedProgress_next 1)
            fun runs => absurd (running ▸ runs) (untaken mine), fun _ => ?_⟩
          rw [AppState.bar, AppState.bar, empty, shown]
          exact (queuedProgress_next 1).ge
      | unmade fresh => exact absurd known (Nat.not_lt.mpr fresh)
      | ended _ closed _ => cases live.symm.trans closed
      | separating runs _ _ | writing runs _ _ => exact absurd runs (untaken mine)
  | ended mine closed full =>
      have known := (handled mine).1
      refine ⟨.ended (known.trans_le more) closed full, fun _ => ?_⟩
      rw [AppState.bar.eq_def after, full]
      exact (shows.bounds rises known).2

theorem Shows.idle {server after : AppState R Sep} {id : Nat} {before : List Progress}
    (shows : Shows server id before) (idle : server.queue.ledger.running ≠ some id)
    (same : (after.store.job id).progress = (server.store.job id).progress)
    (numbered : after.store.attempts = server.store.attempts)
    (phase : after.queue.ledger.running = some id → after.phase = .separating) :
    Shows after id before := by
  cases shows with
  | unmade fresh => exact .unmade (numbered.trans_le fresh)
  | starts known queued empty _ =>
      exact .starts (known.trans_eq numbered.symm) (same ▸ queued) (same ▸ empty) phase
  | separating runs _ _ | writing runs _ _ => exact absurd runs idle
  | ended known closed full =>
      refine .ended (known.trans_eq numbered.symm) ?_ (same ▸ full)
      exact (congrArg (fun progress => progress.stage.isTerminal) same).trans closed

theorem Shows.change {server : AppState R Sep} {claimed : Queue.Claimed Nat R} {id : Nat}
    {before : List Progress} (change : Job String → Job String) (phase : Phase)
    (shows : Shows server id before) (owned : Owned server)
    (busy : server.queue.worker = .separating claimed) (other : id ≠ claimed.work.job) :
    Shows { server.change claimed.work.job change with phase := phase } id before ∧
      AppState.bar { server.change claimed.work.job change with phase := phase } id =
        server.bar id := by
  have has : server.queue.ledger.running = some claimed.work.job :=
    congrArg (Option.map _) (owned.served.slot claimed busy)
  have idle : server.queue.ledger.running ≠ some id := fun runs =>
    other (Option.some.inj (runs.symm.trans has))
  have same : ((server.change claimed.work.job change).store.job id).progress =
      (server.store.job id).progress := by
    simp [AppState.change, other]
  exact ⟨shows.idle idle same rfl fun runs => absurd runs idle, congrArg Progress.fraction same⟩

theorem Shows.settle {server : AppState R Sep} {claimed : Queue.Claimed Nat R} {id : Nat}
    {before : List Progress} (change : Job String → Job String)
    (shows : Shows server id before) (owned : Owned server)
    (rises : Rises (2 / 100) (90 / 100) before) (busy : server.queue.worker = .separating claimed)
    (closed : ∀ job, (change job).isTerminal = true ∧ (change job).progress.fraction = 1) :
    Shows { server.change claimed.work.job change with phase := .settled } id before ∧
      (id < server.store.attempts → server.bar id ≤
        AppState.bar { server.change claimed.work.job change with phase := .settled } id) := by
  by_cases mine : id = claimed.work.job
  · subst mine
    have runs : server.queue.ledger.running = some claimed.work.job :=
      congrArg (Option.map _) (owned.served.slot claimed busy)
    have known := (owned.running_known runs).2
    have full : AppState.bar { server.change claimed.work.job change with phase := .settled }
        claimed.work.job = 1 := by
      simp [AppState.bar, AppState.change, closed]
    refine ⟨.ended known ?_ full, fun _ => full ▸ (shows.bounds rises known).2⟩
    simp [AppState.isTerminal, AppState.change, closed]
  · obtain ⟨shown, same⟩ := shows.change change .settled owned busy mine
    exact ⟨shown, fun _ => same.ge⟩

theorem Owned.going {server : AppState R Sep} (owned : Owned server) {id : Nat}
    (runs : server.queue.ledger.running = some id) (phase : server.phase ≠ .settled) :
    server.isTerminal id = false :=
  Bool.eq_false_iff.mpr fun closed => phase ((owned.running id runs).mp closed)

theorem Shows.report {server after : AppState R Sep} {progress : Progress} {id : Nat}
    {before : List Progress} (shows : Shows server id before) (owned : Owned server)
    (done : server.work (.report progress) = some after)
    (rises : Rises (2 / 100) (90 / 100)
      (before ++ (server.reported id (.worker (.report progress))).toList)) :
    Shows after id (before ++ (server.reported id (.worker (.report progress))).toList) ∧
      (id < server.store.attempts → server.bar id ≤ after.bar id) := by
  simp only [AppState.work] at done
  split at done
  · rename_i claimed busy phase
    split at done <;> cases done
    have runs : server.queue.ledger.running = some claimed.work.job :=
      congrArg (Option.map _) (owned.served.slot claimed busy)
    by_cases mine : id = claimed.work.job
    · subst mine
      have said :
          server.reported claimed.work.job (.worker (.report progress)) = some progress := by
        simp [AppState.reported, busy]
      have live := owned.going runs fun is => by cases phase.symm.trans is
      rw [said] at rises ⊢
      have bar : AppState.bar (server.change claimed.work.job (·.setProgress progress))
          claimed.work.job = progress.fraction := by
        simp [AppState.bar, AppState.change, Job.setProgress]
      refine ⟨.separating runs phase (by simp [AppState.change, Job.setProgress]), fun known => ?_⟩
      rw [bar, AppState.bar]
      cases shows with
      | unmade fresh => exact absurd known (Nat.not_lt.mpr fresh)
      | starts _ _ empty _ =>
          rw [empty]
          linarith [(rises.inside progress (by simp)).2.1]
      | separating _ _ shown =>
          rw [shown]
          refine (List.pairwise_append.mp rises.sorted).2.2 _ (by simp) progress (by simp)
      | writing _ went _ => rcases went with went | ⟨entry, went⟩ <;> cases phase.symm.trans went
      | ended _ closed _ => cases live.symm.trans closed
    · have silent : server.reported id (.worker (.report progress)) = none := by
        simp [AppState.reported, busy, Ne.symm mine]
      obtain ⟨shown, same⟩ := shows.change (·.setProgress progress) server.phase owned busy mine
      rw [silent, Option.toList_none, List.append_nil]
      exact ⟨shown, fun _ => same.ge⟩
  · cases done

theorem Shows.separated {server after : AppState R Sep} {id : Nat} {before : List Progress}
    (shows : Shows server id before) (owned : Owned server)
    (done : server.work .separated = some after)
    (rises : Rises (2 / 100) (90 / 100) before) :
    Shows after id before ∧ (id < server.store.attempts → server.bar id ≤ after.bar id) := by
  simp only [AppState.work] at done
  split at done
  · rename_i claimed busy phase
    cases done
    have runs : server.queue.ledger.running = some claimed.work.job :=
      congrArg (Option.map _) (owned.served.slot claimed busy)
    by_cases mine : id = claimed.work.job
    · subst mine
      have live := owned.going runs fun is => by cases phase.symm.trans is
      refine ⟨.writing runs (.inl rfl) (by simp [AppState.change, Job.setProgress]),
        fun known => ?_⟩
      have bar : AppState.bar { server.change claimed.work.job (·.setProgress (.new .writing)) with
          phase := .writing } claimed.work.job = 96 / 100 := by
        simp [AppState.bar, AppState.change, Job.setProgress, Progress.new, stageFloor]
      rw [bar, AppState.bar]
      cases shows with
      | unmade fresh => exact absurd known (Nat.not_lt.mpr fresh)
      | starts _ _ empty _ =>
          rw [empty]
          norm_num
      | separating _ _ shown =>
          rw [shown]
          linarith [(rises.inside _ (List.mem_append_right _ (List.mem_singleton_self _))).2.2]
      | writing _ went _ => rcases went with went | ⟨entry, went⟩ <;> cases phase.symm.trans went
      | ended _ closed _ => cases live.symm.trans closed
    · obtain ⟨shown, same⟩ := shows.change (·.setProgress (.new .writing)) .writing owned busy mine
      exact ⟨shown, fun _ => same.ge⟩
  · cases done

theorem Shows.stepped {server : AppState R Sep} {queue : Queue.Inner Nat R Sep}
    {action : Queue.Action Nat R Sep} {id : Nat} {before : List Progress}
    (shows : Shows server id before) (owned : Owned server)
    (stepped : server.queue.step action = some queue) (takes : action ≠ .next)
    (finishes : action ≠ .finished) :
    Shows { server with queue := queue } id before :=
  shows.frame rfl (fun old => old) (Nat.le_refl _)
    (Queue.Inner.running_step owned.served stepped takes finishes) rfl

theorem Shows.written {server after : AppState R Sep} {id : Nat} {before : List Progress}
    (shows : Shows server id before) (done : server.work .written = some after) :
    Shows after id before ∧ (id < server.store.attempts → server.bar id ≤ after.bar id) := by
  simp only [AppState.work] at done
  split at done
  · rename_i claimed busy phase
    cases done
    refine ⟨?_, fun _ => le_refl _⟩
    cases shows with
    | unmade fresh => exact .unmade fresh
    | starts known queued empty going =>
        refine .starts known queued empty fun has => ?_
        cases phase.symm.trans (going has)
    | separating _ going _ => cases phase.symm.trans going
    | writing has _ shown => exact .writing has (.inr ⟨_, rfl⟩) shown
    | ended known closed full => exact .ended known closed full
  · cases done

theorem Shows.cleared {server after : AppState R Sep} {id : Nat} {before : List Progress}
    (shows : Shows server id before) (done : server.work .cleared = some after) :
    Shows after id before ∧ (id < server.store.attempts → server.bar id ≤ after.bar id) := by
  simp only [AppState.work] at done
  split at done
  · rename_i phase
    obtain ⟨queue, stepped, rfl⟩ := Option.map_eq_some_iff.mp done
    have nobody : queue.ledger.running = none := by
      rw [Queue.Inner.step] at stepped
      split at stepped <;> cases stepped
      rfl
    refine ⟨?_, fun _ => le_refl _⟩
    cases shows with
    | unmade fresh => exact .unmade fresh
    | starts known queued empty _ =>
        exact .starts known queued empty fun has => by
          cases nobody.symm.trans has
    | separating _ going _ => cases phase.symm.trans going
    | writing _ going _ =>
      rcases going with going | ⟨entry, going⟩ <;> cases phase.symm.trans going
    | ended known closed full => exact .ended known closed full
  · cases done

theorem Shows.work {server after : AppState R Sep} {event : WorkerEvent} {id : Nat}
    {before : List Progress} (shows : Shows server id before) (owned : Owned server)
    (done : server.work event = some after)
    (rises : Rises (2 / 100) (90 / 100) (before ++ (server.reported id (.worker event)).toList)) :
    Shows after id (before ++ (server.reported id (.worker event)).toList) ∧
      (id < server.store.attempts → server.bar id ≤ after.bar id) := by
  by_cases reports : ∃ progress, event = .report progress
  · obtain ⟨progress, rfl⟩ := reports
    exact shows.report owned done rises
  have silent : server.reported id (.worker event) = none := by
    cases event <;> first | rfl | exact absurd ⟨_, rfl⟩ reports
  rw [silent, Option.toList_none, List.append_nil] at rises ⊢
  cases event with
  | report progress => exact absurd ⟨progress, rfl⟩ reports
  | separated => exact shows.separated owned done rises
  | next =>
      obtain ⟨queue, stepped, rfl⟩ := Option.map_eq_some_iff.mp done
      have looking : server.queue.worker = .looking := by
        rw [Queue.Inner.step] at stepped
        split at stepped
        · assumption
        · cases stepped
      have nobody : server.queue.ledger.running = none := by
        rw [Queue.Inner.ledger, owned.served.idle (by simp [looking])]
        rfl
      exact ⟨shows.idle (by simp [nobody]) rfl rfl fun _ => rfl, fun _ => le_refl _⟩
  | built outcome =>
      obtain ⟨queue, stepped, rfl⟩ := Option.map_eq_some_iff.mp done
      exact ⟨shows.stepped owned stepped (by simp) (by simp), fun _ => le_refl _⟩
  | answered =>
      obtain ⟨queue, stepped, rfl⟩ := Option.map_eq_some_iff.mp done
      exact ⟨shows.stepped owned stepped (by simp) (by simp), fun _ => le_refl _⟩
  | cancelled =>
      simp only [AppState.work] at done
      split at done
      · split at done <;> cases done
        exact shows.settle _ owned rises ‹_› fun _ => ⟨rfl, rfl⟩
      · cases done
  | failed message =>
      simp only [AppState.work] at done
      split at done <;> cases done
      exact shows.settle (·.fail message) owned rises ‹_› fun _ => ⟨rfl, rfl⟩
  | panicked what =>
      simp only [AppState.work] at done
      split at done <;> cases done <;>
        exact shows.settle (·.fail _) owned rises ‹_› fun _ => ⟨rfl, rfl⟩
  | unwritten message =>
      simp only [AppState.work] at done
      split at done <;> cases done
      exact shows.settle (·.fail _) owned rises ‹_› fun _ => ⟨rfl, rfl⟩
  | completed =>
      simp only [AppState.work] at done
      split at done
      · rename_i claimed entry busy phase
        cases done
        exact shows.settle (·.complete claimed.work.job entry false) owned rises busy
          fun _ => ⟨rfl, rfl⟩
      · cases done
  | written => exact shows.written done
  | cleared => exact shows.cleared done

theorem waited_before {queue after : Queue.Inner Nat R Sep} {action : Queue.Action Nat R Sep}
    {id : Nat} (served : queue.Served) (step : queue.step action = some after)
    (submits : ∀ work, action ≠ .submit work) (waits : id ∈ after.waiting) :
    id ∈ queue.waiting := by
  obtain ⟨work, member, rfl⟩ := List.mem_map.mp waits
  exact List.mem_map_of_mem ((Queue.Inner.work_step served step submits).1 work member)

theorem Acts.waits {setting : Setting R Sep} {server after : AppState R Sep}
    {thread next : Thread R Sep} {choice : Choice} {id : Nat}
    (acts : Acts setting server thread choice after next) (served : server.queue.Served)
    (waits : id ∈ after.queue.waiting) :
    id ∈ server.queue.waiting ∨ (after.store.job id).progress.stage = .queued := by
  cases acts with
  | called late call moved resume queue point advanced =>
      rcases Queue.Call.advance_inner advanced with same | ⟨action, step, callers, -⟩
      · exact .inl (same ▸ waits)
      · refine .inl (waited_before served step ?_ waits)
        rintro work rfl
        cases callers
  | submitted via request job position queue point accepted =>
      rcases List.mem_append.mp ((Queue.submit_position accepted).2 ▸ waits) with old | new
      · exact .inl old
      · cases List.mem_singleton.mp new
        refine .inr ?_
        rw [AppState.change, JobStore.update_job, if_pos rfl]
        rfl
  | _ => exact .inl waits

theorem Move.waits {setting : Setting R Sep} {server after : AppState R Sep} {event : Event R Sep}
    {id : Nat} (move : Move setting server event after) (owned : Owned server)
    (waits : id ∈ after.queue.waiting) :
    id ∈ server.queue.waiting ∧
        (after.store.job id).progress = (server.store.job id).progress ∨
      (after.store.job id).progress.stage = .queued := by
  cases move with
  | @thread index choice thread next moved here acts =>
      rcases acts.waits owned.served waits with stood | queued
      · obtain ⟨accepted, known⟩ := owned.waiting_known stood
        have unhandled (mine : thread.point.held = some id) : False :=
          (owned.held id (handlers_pos.mpr ⟨thread, List.mem_of_getElem? here, mine⟩)).2.1 accepted
        cases acts.writes id with
        | kept same numbered => exact .inl ⟨stood, same⟩
        | made is _ _ => exact absurd is (Nat.ne_of_lt known)
        | joined mine _ _ | ended mine _ _ => exact (unhandled mine).elim
      · exact .inr queued
  | worker works =>
      have stood : id ∈ server.queue.waiting := by
        rcases works.queue with same | ⟨action, step, submits, -⟩
        · exact same ▸ waits
        · exact waited_before owned.served step submits waits
      -- The worker writes to the job it runs, which does not wait any more.
      have there : server.queue.ledger.At id .waiting := stood
      rcases works.record owned.served id with same | ⟨runs, -⟩
      · exact .inl ⟨stood, congrArg Record.progress same⟩
      · exact absurd runs (owned.sound.elsewhere there .running (by simp))
  | pruned =>
      have unregisters := server.store.prune_unregisters server.cache.isEvicted server.clock
      exact .inl ⟨waits, congrArg (fun jobs => (jobs id).progress) unregisters.job⟩
  | entered | evicted | ticked => exact .inl ⟨waits, rfl⟩

section

variable [DecidableEq Sep]

omit [DecidableEq Sep] in
theorem reported_none {server : AppState R Sep} {id : Nat} {event : Event R Sep}
    (quiet : ∀ work, event ≠ .worker work) : server.reported id event = none := by
  cases event <;> first | rfl | exact absurd rfl (quiet _)

theorem Shows.step {setting : Setting R Sep} {server after : AppState R Sep} {event : Event R Sep}
    {id : Nat} {before : List Progress} (shows : Shows server id before) (owned : Owned server)
    (done : server.step setting event = some after)
    (rises : Rises (2 / 100) (90 / 100) (before ++ (server.reported id event).toList))
    (alone : id ∉ server.queue.waiting → id ∈ after.queue.waiting → server.queue.waiting = []) :
    Shows after id (before ++ (server.reported id event).toList) ∧
      (id < server.store.attempts → server.bar id ≤ after.bar id) := by
  by_cases work : ∃ work, event = .worker work
  · obtain ⟨work, rfl⟩ := work
    exact shows.work owned done rises
  rw [reported_none fun is same => work ⟨is, same⟩, Option.toList_none, List.append_nil] at rises ⊢
  cases move_of_step done with
  | worker works => exact absurd ⟨_, rfl⟩ work
  | thread here acts =>
      obtain ⟨shown, grows⟩ := shows.act owned rises here acts alone
      exact ⟨shown.frame rfl (fun old => old) (Nat.le_refl _) rfl rfl, grows⟩
  | pruned =>
      have unregisters := server.store.prune_unregisters server.cache.isEvicted server.clock
      have same : ((server.store.prune server.cache.isEvicted server.clock).job id).progress =
          (server.store.job id).progress :=
        congrArg (fun jobs => (jobs id).progress) unregisters.job
      exact ⟨shows.frame same unregisters.attempts.trans_le unregisters.attempts.ge rfl rfl,
        fun _ => (congrArg Progress.fraction same).ge⟩
  | entered | evicted | ticked =>
      exact ⟨shows.frame rfl (fun old => old) (Nat.le_refl _) rfl rfl, fun _ => le_refl _⟩

variable {setting : Setting R Sep} {model : Sep} {maxDepth retainFailed n id : Nat}
  {state : Nat → AppState R Sep} {event : Nat → Event R Sep}

theorem owned_of_run
    (run : (AppState.system setting model maxDepth retainFailed).Run n state event) {i : Nat}
    (inside : i ≤ n) : Owned (state i) :=
  owned_of_reaches (run.reachable inside)

omit [DecidableEq Sep] in
theorem reports_initial (state : Nat → AppState R Sep) (event : Nat → Event R Sep) (id : Nat)
    {i n : Nat} (le : i ≤ n) : reports state event id i <+: reports state event id n := by
  induction le with
  | refl => exact List.prefix_refl _
  | step _ ih =>
      rw [reports_succ]
      exact ih.trans (List.prefix_append ..)

theorem known_later
    (run : (AppState.system setting model maxDepth retainFailed).Run n state event) {i k : Nat}
    (le : i ≤ k) (inside : k ≤ n) (known : id < (state i).store.attempts) :
    id < (state k).store.attempts :=
  (run.stretch le inside).invariant (P := fun server => id < server.store.attempts) known
    fun _ _ _ _ known _ done => known.trans_le (move_of_step done).carries.attempts

section

variable (run : (AppState.system setting model maxDepth retainFailed).Run n state event)
  (rises : Rises (2 / 100) (90 / 100) (reports state event id n))
  (alone : FindsNobody state n id)

include run rises alone

theorem shows_of_run (i : Nat) (inside : i ≤ n) :
    Shows (state i) id (reports state event id i) := by
  induction i with
  | zero =>
      rw [run.start]
      by_cases made : id = 0
      · subst made
        exact .starts Nat.one_pos rfl rfl fun has => by cases has
      · exact .unmade (Nat.one_le_iff_ne_zero.mpr made)
  | succ i ih =>
      rw [reports_succ]
      refine ((ih (Nat.le_of_succ_le inside)).step (owned_of_run run (Nat.le_of_succ_le inside))
        (run.step i inside) ?_ (alone i inside)).1
      exact reports_succ state event id i ▸ rises.of_initial (reports_initial _ _ _ inside)

theorem bar_mono {i k : Nat} (le : i ≤ k) (inside : k ≤ n) (known : id < (state i).store.attempts) :
    (state i).bar id ≤ (state k).bar id := by
  induction le with
  | refl => exact le_refl _
  | @step k le ih =>
      have earlier := Nat.le_of_succ_le inside
      have owned := owned_of_run run earlier
      have known := known_later run le earlier known
      refine (ih earlier).trans ?_
      refine ((shows_of_run run rises alone k earlier).step owned (run.step k inside) ?_
        (alone k inside)).2 known
      exact reports_succ state event id k ▸ rises.of_initial (reports_initial _ _ _ inside)

end

theorem front_of_alone
    (run : (AppState.system setting model maxDepth retainFailed).Run n state event)
    (alone : FindsNobody state n id) (i : Nat) (inside : i ≤ n)
    (waits : id ∈ (state i).queue.waiting) : (state i).queue.waiting.idxOf id = 0 := by
  induction i with
  | zero =>
      rw [run.start] at waits
      cases waits
  | succ i ih =>
      have earlier := Nat.le_of_succ_le inside
      have owned := owned_of_run run earlier
      have shifts := (move_of_step (run.step i inside)).shifts owned.served
      by_cases stood : id ∈ (state i).queue.waiting
      · rcases shifts.place (List.nodup_append.mp owned.sound.distinct).2.1 stood waits with
          same | ⟨moved, -⟩
        · exact same.trans (ih earlier stood)
        · rw [ih earlier stood] at moved
          cases moved
      -- It has just joined, and there was nobody.
      · rw [alone i inside stood waits] at shifts
        generalize (state (i + 1)).queue.waiting = line at shifts waits
        cases shifts with
        | stays | leaves => cases waits
        | joins _ item =>
            obtain rfl := List.mem_singleton.mp waits
            exact List.idxOf_cons_self

/-- Where nobody is ever ahead, every poll reads what was written last. -/
theorem liveView_bar
    (run : (AppState.system setting model maxDepth retainFailed).Run n state event)
    (rises : Rises (2 / 100) (90 / 100) (reports state event id n))
    (alone : FindsNobody state n id) {i j : Nat} (le : i ≤ j) (inside : j ≤ n)
    (known : id < (state i).store.attempts) :
    ((state i).liveView (state j) id).fraction = (state i).bar id := by
  by_cases queued : ((state i).store.job id).progress.stage = .queued
  · have empty : (state i).bar id = 0 := by
      have before := rises.of_initial (reports_initial state event id (le.trans inside))
      exact (shows_of_run run rises alone i (le.trans inside)).empty before known queued
    rw [AppState.liveView, if_pos queued]
    by_cases waits : id ∈ (state j).queue.waiting
    · rw [Queue.queuedProgressFor_eq waits, front_of_alone run alone j inside waits,
        Option.getD_some, queuedProgress_next, empty]
    · rw [Queue.queuedProgressFor_none waits]
      rfl
  · rw [AppState.liveView, if_neg queued]
    rfl

theorem registered_earlier
    (run : (AppState.system setting model maxDepth retainFailed).Run n state event) {i k : Nat}
    (le : i ≤ k) (inside : k ≤ n) (known : id < (state i).store.attempts)
    (member : id ∈ (state k).store.byId) : id ∈ (state i).store.byId := by
  by_contra absent
  refine ((run.stretch le inside).invariant (P := fun server => id < server.store.attempts ∧
    id ∉ server.store.byId) ⟨known, absent⟩ fun _ _ _ _ holds _ done => ?_).2 member
  have move := move_of_step done
  refine ⟨holds.1.trans_le move.carries.attempts, fun back => ?_⟩
  rcases move.proceeds.registered id back with old | ⟨fresh, -⟩
  · exact holds.2 old
  · exact Nat.ne_of_lt holds.1 fresh

theorem neverFalls_of_alone
    (run : (AppState.system setting model maxDepth retainFailed).Run n state event)
    (rises : Rises (2 / 100) (90 / 100) (reports state event id n))
    (alone : FindsNobody state n id) : NeverFalls state n id := by
  have known {i : Nat} (inside : i ≤ n) (member : id ∈ (state i).store.byId) :=
    (shelved_of_reaches (run.reachable inside)).numbered id member
  intro i j le inside member
  have here := known (le.trans inside) member
  have bounds := (shows_of_run run rises alone i (le.trans inside)).bounds
    (rises.of_initial (reports_initial state event id (le.trans inside))) here
  rw [liveView_bar run rises alone le inside here]
  refine ⟨bounds.1, bounds.2, fun k l after le' inside' member' => ?_⟩
  rw [liveView_bar run rises alone le' inside' (known (le'.trans inside') member')]
  exact bar_mono run rises alone (le.trans after) (le'.trans inside') here

theorem queued_of_waiting
    (run : (AppState.system setting model maxDepth retainFailed).Run n state event) (i : Nat)
    (inside : i ≤ n) (waits : id ∈ (state i).queue.waiting) :
    ((state i).store.job id).progress.stage = .queued := by
  induction i with
  | zero =>
      rw [run.start] at waits
      cases waits
  | succ i ih =>
      have earlier := Nat.le_of_succ_le inside
      have owned := owned_of_run run earlier
      have move := move_of_step (run.step i inside)
      rcases move.waits owned waits with ⟨stood, same⟩ | queued
      · rw [same]
        exact ih earlier stood
      · exact queued

/-- While it waits, a poll reads a job's place of those that wait. -/
theorem liveView_waiting
    (run : (AppState.system setting model maxDepth retainFailed).Run n state event) {k : Nat}
    (inside : k ≤ n) (waits : id ∈ (state k).queue.waiting) :
    ((state k).liveView (state k) id).fraction =
      (Queue.queuedProgress ((state k).queue.waiting.idxOf id)
        (state k).queue.waiting.length).fraction := by
  rw [AppState.liveView, if_pos (queued_of_waiting run k inside waits),
    Queue.queuedProgressFor_eq waits, Option.getD_some, Queue.Inner.waiting, List.length_map]

theorem behind_of_hidden
    (run : (AppState.system setting model maxDepth retainFailed).Run n state event) {i m : Nat}
    (inside : m ≤ n) (absent : id ∉ (state i).queue.waiting)
    (somebody : (state i).queue.waiting ≠ [])
    (waits : ∀ k, i < k → k ≤ m → id ∈ (state k).queue.waiting)
    (hidden : ∀ k, i < k → k ≤ m → ((state k).liveView (state k) id).fraction ≤ 0) {k : Nat}
    (after : i < k) (before : k ≤ m) : 2 ≤ (state k).queue.waiting.idxOf id := by
  have wrapped (k : Nat) (after : i < k) (before : k ≤ m)
      (place : (state k).queue.waiting.idxOf id % 2 ^ 32 ≠ 0) :
      (state k).queue.waiting.length % 2 ^ 32 = 0 := by
    by_contra counted
    have here := hidden k after before
    rw [liveView_waiting run (before.trans inside) (waits k after before)] at here
    exact absurd (queuedProgress_pos place counted) (not_lt.mpr here)
  have shifts {k : Nat} (lt : k < m) :
      Shifts (state k).queue.waiting (state (k + 1)).queue.waiting :=
    (move_of_step (run.step k (lt.trans_le inside))).shifts
      (owned_of_run run (lt.le.trans inside)).served
  induction after with
  | refl =>
      have joined := shifts before
      have stands := waits (i + 1) (Nat.lt_succ_self i) before
      have counted := wrapped (i + 1) (Nat.lt_succ_self i) before
      have some := List.length_pos_iff.mpr somebody
      generalize (state i).queue.waiting = line at joined absent some
      generalize (state (i + 1)).queue.waiting = longer at joined stands counted
      cases joined with
      | stays => exact absurd stands absent
      | leaves => exact absurd (List.mem_filter.mp stands).1 absent
      | served => exact absurd (List.mem_cons_of_mem _ stands) absent
      | joins _ item =>
          obtain rfl := List.mem_singleton.mp ((List.mem_append.mp stands).resolve_left absent)
          rw [List.idxOf_append_of_notMem absent, List.idxOf_cons_self] at counted ⊢
          rw [List.length_append, List.length_singleton] at counted
          omega
  | @step k after ih =>
      have earlier := ih (Nat.le_of_succ_le before)
      have owned := owned_of_run run ((Nat.le_of_succ_le before).trans inside)
      have first := wrapped k after (Nat.le_of_succ_le before)
      have second := wrapped (k + 1) (Nat.lt_succ_of_lt after) before
      rcases (shifts before).place (List.nodup_append.mp owned.sound.distinct).2.1
        (waits k after (Nat.le_of_succ_le before))
        (waits (k + 1) (Nat.lt_succ_of_lt after) before) with same | ⟨moved, shorter⟩
      · exact earlier.trans_eq same.symm
      -- From the third place to the second the line loses one too: the two counts cannot both have
      -- run over.
      · change 2 ≤ (state (k + 1)).queue.waiting.idxOf id
        omega

/-- Behind another, a job shows less when its turn comes than it has shown before. -/
theorem alone_of_neverFalls
    (run : (AppState.system setting model maxDepth retainFailed).Run n state event)
    (kept : id ∈ (state n).store.byId) (done : ((state n).store.job id).progress.stage = .done)
    (rising : NeverFalls state n id) : FindsNobody state n id := by
  intro i inside absent joined
  by_contra somebody
  have closed : (state n).isTerminal id = true := by
    rw [AppState.isTerminal, Job.isTerminal, done]
    rfl
  have ended : id ∉ (state n).queue.waiting := fun waits => by
    cases closed.symm.trans ((owned_of_run run (le_refl n)).waiting id waits)
  -- The last state in which the job waits, all the way from where it joined.
  have leaves : ∃ d, id ∉ (state (i + 1 + d)).queue.waiting :=
    ⟨n - (i + 1), by rwa [Nat.add_sub_of_le inside]⟩
  obtain ⟨d, left, waits⟩ : ∃ d, id ∉ (state (i + 1 + d)).queue.waiting ∧
      ∀ e < d, id ∈ (state (i + 1 + e)).queue.waiting :=
    ⟨Nat.find leaves, Nat.find_spec leaves, fun e before => not_not.mp (Nat.find_min leaves before)⟩
  obtain _ | e := d
  · exact left joined
  have within : i + 1 + e < n := by
    by_contra beyond
    have short : n - (i + 1) < e + 1 := by omega
    exact ended (Nat.add_sub_of_le inside ▸ waits _ short)
  have waits (k : Nat) (after : i < k) (before : k ≤ i + 1 + e) : id ∈ (state k).queue.waiting := by
    obtain ⟨f, rfl⟩ := Nat.exists_eq_add_of_le after
    exact waits f (by omega)
  have member (k : Nat) (after : i < k) (before : k ≤ i + 1 + e) : id ∈ (state k).store.byId :=
    registered_earlier run (before.trans within.le) (le_refl n)
      ((owned_of_run run (before.trans within.le)).waiting_known (waits k after before)).2 kept
  have front : (state (i + 1 + e)).queue.waiting.idxOf id = 0 := by
    have owned := owned_of_run run within.le
    rcases (move_of_step (run.step _ within)).leaves owned.served (waits _ (by omega) (le_refl _))
      left with removed | front
    · -- What is taken out of the queue never ends.
      have still := (run.stretch within (le_refl n)).invariant
        (P := fun server => server.queue.Served ∧ id ∈ server.queue.history.removed)
        ⟨(owned_of_run run within).served, removed⟩ fun _ _ _ _ holds _ done =>
          ⟨(move_of_step done).served holds.1, (move_of_step done).removed holds.1 holds.2⟩
      cases closed.symm.trans ((owned_of_run run (le_refl n)).removed id still.2)
    · exact front
  have last : ((state (i + 1 + e)).liveView (state (i + 1 + e)) id).fraction = 0 := by
    rw [liveView_waiting run within.le (waits _ (by omega) (le_refl _)), front, queuedProgress_next]
  have hidden (k : Nat) (after : i < k) (before : k ≤ i + 1 + e) :
      ((state k).liveView (state k) id).fraction ≤ 0 :=
    last ▸ (rising k k (le_refl k) (before.trans within.le) (member k after before)).2.2 _ _ before
      (le_refl _) within.le (member _ (by omega) (le_refl _))
  have behind : 2 ≤ (state (i + 1 + e)).queue.waiting.idxOf id :=
    behind_of_hidden run within.le absent somebody waits hidden (by omega) (le_refl _)
  omega

/-- What a client reads of a job that gets done, poll after poll, never falls exactly if the job
found nobody waiting when it joined the queue. -/
theorem progress_never_falls_iff (setting : Setting R Sep) (model : Sep)
    (maxDepth retainFailed n id : Nat) (state : Nat → AppState R Sep) (event : Nat → Event R Sep)
    (run : (AppState.system setting model maxDepth retainFailed).Run n state event)
    (reported : ∃ planned, Planned planned ∧ reports state event id n <+: planned)
    (kept : id ∈ (state n).store.byId) (done : ((state n).store.job id).progress.stage = .done) :
    NeverFalls state n id ↔ FindsNobody state n id := by
  obtain ⟨planned, plan, part⟩ := reported
  exact ⟨alone_of_neverFalls run kept done, neverFalls_of_alone run (plan.rises.of_initial part)⟩

end

instance (state : Nat → AppState R Sep) (n id : Nat) : Decidable (FindsNobody state n id) :=
  inferInstanceAs (Decidable (∀ i < n, _))

def reportedSeparation {R Sep : Type} : List (Event R Sep) :=
  (.worker .next ::
    ((MlxSeparator.plan 1).filterMap SinkEvent.report).map (.worker <| .report ·)) ++
    [.worker .separated, .worker .written, .worker .completed, .worker .cleared]

/-- An upload that finds the queue empty. -/
theorem lone_upload_never_falls :
    NeverFalls ((AppState.system trackSetting "htdemucs" 4 60).trail (.start "htdemucs" 4 60)
      (upload 0 ++ reportedSeparation)) 15 1 := by
  have run : ∃ server, (AppState.system trackSetting "htdemucs" 4 60).replay System.Any
      (.start "htdemucs" 4 60) (upload 0 ++ reportedSeparation) = some server := ⟨_, rfl⟩
  obtain ⟨server, done⟩ := run
  exact (progress_never_falls_iff trackSetting "htdemucs" 4 60 15 1 _ _
    (System.run_of_replay .tick done) ⟨_, .single 1, ⟨[], rfl⟩⟩ (by decide)
    (by decide)).mpr (by decide)

def tracksSetting : Setting Bool String where
  key := fun second name => String.ofList ((if second then 'b' else 'a') :: name.toList)
  identity := fun model => model
  output := fun _ => ⟨.flac, .hz44100, true, .general⟩
  names := fun _ _ _ _ same => by
    have letters := congrArg String.toList same
    rw [String.toList_ofList, String.toList_ofList] at letters
    exact String.toList_inj.mp (List.cons.inj letters).2

def twoUploads : List (Event Bool String) :=
  .arrive .upload false :: List.replicate 5 (.advance 0 .plain) ++
    .arrive .upload true :: List.replicate 5 (.advance 1 .plain) ++
      [.worker .next, .worker .separated, .worker .written, .worker .completed, .worker .cleared] ++
        reportedSeparation

/-- The second of two uploads shows half of the wait behind it, and then none of it. -/
theorem second_upload_falls_back :
    ∃ (state : Nat → AppState Bool String) (event : Nat → Event Bool String),
      (AppState.system tracksSetting "htdemucs" 4 60).Run 26 state event ∧
      (∃ planned, Planned planned ∧ reports state event 2 26 <+: planned) ∧
      2 ∈ (state 26).store.byId ∧ ((state 26).store.job 2).progress.stage = .done ∧
      ¬ NeverFalls state 26 2 := by
  have run : ∃ server, (AppState.system tracksSetting "htdemucs" 4 60).replay System.Any
      (.start "htdemucs" 4 60) twoUploads = some server := ⟨_, rfl⟩
  obtain ⟨server, done⟩ := run
  refine ⟨_, _, System.run_of_replay .tick done, ⟨_, .single 1, ⟨[], rfl⟩⟩, by decide, by decide,
    fun rising => ?_⟩
  have fallen := (rising 12 12 (le_refl _) (by decide) (by decide)).2.2 17 17 (by decide)
    (le_refl _) (by decide) (by decide)
  have behind : 0 < (Queue.queuedProgress 1 2).fraction :=
    queuedProgress_pos (by decide) (by decide)
  exact absurd (fallen.trans (queuedProgress_next 1).le) (not_le.mpr behind)

end Stemd.Server
