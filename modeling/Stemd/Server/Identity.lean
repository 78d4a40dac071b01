import Stemd.Server.Moves

/-! Which model a key names, and which one made what is filed under it.

A key is fixed when a request reads the switcher's identity, the model when the worker
takes the job. A switch changes the worker's model first and the identity later, and
either change can come between. -/

set_option autoImplicit false

namespace Stemd.Server

open Stemd.Core
open Stemd.Semantics

variable {R Sep : Type}

def Names (setting : Setting R Sep) (separator : Sep) (key : String) : Prop :=
  ∃ request, key = setting.key request (setting.identity separator)

theorem Names.congr {setting : Setting R Sep} {separator other : Sep} {key : String}
    (names : Names setting separator key)
    (same : setting.identity other = setting.identity separator) : Names setting other key := by
  obtain ⟨request, rfl⟩ := names
  exact ⟨request, by rw [same]⟩

def Point.hashed : Point R Sep → Option String
  | .probing _ key | .claiming _ _ key => some key
  | _ => none

/-- A request is outstanding from reading the identity to leaving its job to the queue. -/
def Point.outstanding (point : Point R Sep) : Bool := point.hashed.isSome || point.held.isSome

def Point.isArriving : Point R Sep → Bool
  | .arriving _ _ => true
  | _ => false

def AppState.isReading (server : AppState R Sep) : Event R Sep → Bool
  | .advance index _ => (server.threads[index]?).any (·.point.isArriving)
  | _ => false

def AppState.adopting (server : AppState R Sep) : Event R Sep → Option Sep
  | .worker .answered => match server.queue.worker with
      | .answering staged => some staged.build
      | _ => none
  | _ => none

/-- The two moments a switch has to keep clear of: requests read the identity only while
the switcher and the worker name one model, and the worker changes to another model only
when nothing hashed before is still on its way to it. -/
def KeyedInTime (setting : Setting R Sep) (server : AppState R Sep) (event : Event R Sep) : Prop :=
  (server.isReading event = true →
    setting.identity server.current = setting.identity server.queue.separator) ∧
  ∀ build ∈ server.adopting event,
    setting.identity build = setting.identity server.queue.separator ∨
      server.queue.pending.isEmpty = true ∧
        ∀ thread ∈ server.threads, thread.point.outstanding = false

instance (setting : Setting R Sep) (server : AppState R Sep) (event : Event R Sep) :
    Decidable (KeyedInTime setting server event) :=
  inferInstanceAs (Decidable (_ ∧ _))

/-- Everything filed was made by the model its key names, and so is what is under way. -/
structure Agreement (setting : Setting R Sep) (server : AppState R Sep) : Prop where
  entries : ∀ entry ∈ server.cache.entries, Names setting entry.separatedBy entry.key
  running : ∀ claimed, server.queue.worker = .separating claimed →
    Names setting server.queue.separator (server.store.job claimed.work.job).key

def JobNamed (setting : Setting R Sep) (server : AppState R Sep) (id : Nat) : Prop :=
  id < server.store.attempts ∧
    Names setting server.queue.separator (server.store.job id).key

structure PointNamed (setting : Setting R Sep) (server : AppState R Sep)
    (point : Point R Sep) : Prop where
  hashed : ∀ key, point.hashed = some key → Names setting server.queue.separator key
  held : ∀ id, point.held = some id → JobNamed setting server id

structure NamedInTime (setting : Setting R Sep) (server : AppState R Sep) : Prop where
  entries : ∀ entry ∈ server.cache.entries, Names setting entry.separatedBy entry.key
  points : ∀ thread ∈ server.threads, PointNamed setting server thread.point
  waiting : ∀ work ∈ server.queue.pending, JobNamed setting server work.job
  running : ∀ claimed, server.queue.worker = .separating claimed →
    JobNamed setting server claimed.work.job

theorem NamedInTime.agreement {setting : Setting R Sep} {server : AppState R Sep}
    (named : NamedInTime setting server) : Agreement setting server :=
  ⟨named.entries, fun claimed busy => (named.running claimed busy).2⟩

theorem JobNamed.carry {setting : Setting R Sep} {server after : AppState R Sep} {id : Nat}
    (named : JobNamed setting server id) (carries : Carries server.store after.store)
    (same : setting.identity after.queue.separator =
      setting.identity server.queue.separator) : JobNamed setting after id :=
  ⟨Nat.lt_of_lt_of_le named.1 carries.attempts,
    (carries.keys id named.1).symm ▸ named.2.congr same⟩

theorem PointNamed.carry {setting : Setting R Sep} {server after : AppState R Sep}
    {point : Point R Sep} (named : PointNamed setting server point)
    (carries : Carries server.store after.store)
    (same : setting.identity after.queue.separator =
      setting.identity server.queue.separator) : PointNamed setting after point :=
  ⟨fun key is => (named.hashed key is).congr same,
    fun id is => (named.held id is).carry carries same⟩

theorem PointNamed.empty {setting : Setting R Sep} {server : AppState R Sep}
    {point : Point R Sep} (hashed : point.hashed = none) (held : point.held = none) :
    PointNamed setting server point :=
  ⟨fun _ is => (by simp [hashed] at is), fun _ is => by simp [held] at is⟩

theorem Passes.named {setting : Setting R Sep} {server : AppState R Sep}
    {point next : Point R Sep} (passes : Passes server point next)
    (named : PointNamed setting server point) : PointNamed setting server next := by
  cases passes with
  | miss request key => exact ⟨fun k is => named.hashed k is, fun _ is => by cases is⟩
  | decoded request job => exact ⟨fun _ is => (by cases is), fun id is => named.held id is⟩
  | _ => exact .empty rfl rfl

theorem Switches.hashed {server : AppState R Sep} {point next : Point R Sep} {current : Sep}
    {switch : SwitchState Sep} (switches : Switches server point next current switch) :
    next.hashed = none := by cases switches <;> rfl

theorem Resumes.hashed {call : Queue.Call Nat Sep} {after : Resume Sep} {point : Point R Sep}
    (resumes : Resumes call after point) : point.hashed = none := by cases resumes <;> rfl

theorem isCallers_not_submit {action : Queue.Action Nat R Sep} (callers : action.isCallers = true) :
    (∀ work, action ≠ .submit work) ∧ action ≠ .answered := by
  refine ⟨fun work is => ?_, fun is => ?_⟩ <;> subst is <;> cases callers

theorem Acts.separator {setting : Setting R Sep} {server after : AppState R Sep}
    {thread next : Thread R Sep} {choice : Choice}
    (acts : Acts setting server thread choice after next) :
    after.queue.separator = server.queue.separator := by
  rcases acts.queue with same | ⟨action, step, callers⟩ | ⟨_, _, _, _, -, accepted⟩
  · rw [same]
  · exact Queue.Inner.separator_step step (isCallers_not_submit callers).2
  · exact Queue.Inner.separator_step (Queue.Inner.step_submit accepted) (by simp)

/-- Where acting leaves the thread, everything in its hands is named by the model in force,
given that an identity is only read while it is that model's. -/
theorem Acts.named {setting : Setting R Sep} {server after : AppState R Sep}
    {thread next : Thread R Sep} {choice : Choice}
    (acts : Acts setting server thread choice after next)
    (named : PointNamed setting server thread.point)
    (inTime : ∀ via request, thread.point = .arriving via request →
      setting.identity server.current = setting.identity server.queue.separator) :
    PointNamed setting after next.point := by
  have carries := acts.carries
  have same : setting.identity after.queue.separator =
      setting.identity server.queue.separator := by rw [acts.separator]
  cases acts with
  | passed passes => exact passes.named named
  | switched current switch switches => exact .empty switches.hashed switches.held.2
  | identified via request here =>
      refine ⟨fun key is => ?_, fun id is => by simp at is⟩
      have read : key = setting.key request (setting.identity server.current) := by
        cases via <;> exact (Option.some.inj is).symm
      exact ⟨request, by rw [read, inTime via request here]⟩
  | joined via request key job here found =>
      cases via <;> exact .empty rfl rfl
  | claimed via request key here free =>
      refine ⟨fun k is => ?_, fun id is => ?_⟩
      · cases via <;> cases is
      simp only [Via.owner_held, Option.some.injEq] at is
      subst is
      refine ⟨Nat.lt_succ_self _, ?_⟩
      have fresh := named.hashed key (by rw [here]; rfl)
      simpa [Job.fresh] using fresh
  | missed request job here miss =>
      exact ⟨fun _ is => (by cases is), fun id is => named.held id (by rw [here]; exact is)⟩
  | submitted via request job position queue here accepted =>
      cases via <;> exact .empty rfl rfl
  | released job client here =>
      dsimp only
      split <;> exact .empty rfl rfl
  | called late call moved resume queue here advanced =>
      exact .empty (AppState.resumes _ _).hashed (AppState.resumes _ _).held
  | _ => exact .empty rfl rfl

theorem Acts.queued {setting : Setting R Sep} {server after : AppState R Sep}
    {thread next : Thread R Sep} {choice : Choice}
    (acts : Acts setting server thread choice after next) (served : server.queue.Served) :
    (∀ work ∈ after.queue.pending, work ∈ server.queue.pending ∨
      thread.point.held = some work.job) ∧
      ∀ claimed, after.queue.worker = .separating claimed →
        server.queue.worker = .separating claimed ∨ claimed.work ∈ server.queue.pending := by
  rcases acts.queue with same | ⟨action, step, callers⟩ |
    ⟨via, request, job, position, here, accepted⟩
  · rw [same]
    exact ⟨fun _ member => .inl member, fun _ busy => .inl busy⟩
  · obtain ⟨waiting, running⟩ :=
      Queue.Inner.work_step served step (isCallers_not_submit callers).1
    exact ⟨fun work member => .inl (waiting work member), running⟩
  · have left := Queue.Inner.submit_accepts accepted
    refine ⟨fun work member => ?_, fun claimed busy => .inl ((left.worker claimed).mp busy)⟩
    rw [left.pending] at member
    rcases List.mem_append.mp member with old | new
    · exact .inl old
    · rw [List.mem_singleton.mp new, here]
      exact .inr rfl

theorem NamedInTime.move {setting : Setting R Sep} {server after : AppState R Sep}
    {event : Event R Sep} (named : NamedInTime setting server) (served : server.queue.Served)
    (inTime : KeyedInTime setting server event) (move : Move setting server event after) :
    NamedInTime setting after := by
  have carries := move.carries
  cases move with
  | entered enters =>
      refine ⟨named.entries, fun thread member => ?_, named.waiting, named.running⟩
      rcases List.mem_append.mp member with old | new
      · exact ⟨(named.points thread old).hashed, (named.points thread old).held⟩
      · rw [List.mem_singleton.mp new]
        cases enters <;> exact .empty rfl rfl
  | @thread index choice thread next moved here acts =>
      -- Callers leave the worker's model alone, so what was named right stays so.
      have mine := named.points thread (List.mem_of_getElem? here)
      have same : setting.identity moved.queue.separator =
          setting.identity server.queue.separator := by rw [acts.separator]
      have cache : moved.cache = server.cache := by cases acts <;> rfl
      obtain ⟨waiting, running⟩ := acts.queued served
      have carry : ∀ {id}, JobNamed setting server id → JobNamed setting moved id :=
        fun job => job.carry carries same
      refine ⟨fun entry filed => named.entries entry (cache ▸ filed), fun t member => ?_,
        fun work member => ?_, fun claimed busy => ?_⟩
      · rcases acts.mem_threads index t member with rfl | ⟨old, inside, point, -⟩
        · have fresh := acts.named mine fun via request point =>
            inTime.1 (by simp [AppState.isReading, here, point, Point.isArriving])
          exact ⟨fresh.hashed, fresh.held⟩
        · have kept := (named.points old inside).carry carries same
          rw [point]
          exact ⟨kept.hashed, kept.held⟩
      · rcases waiting work member with old | own
        · exact carry (named.waiting work old)
        · exact carry (mine.held work.job own)
      · rcases running claimed busy with old | taken
        · exact carry (named.running claimed old)
        · exact carry (named.waiting claimed.work taken)
  | @worker event _ works =>
      have stay : setting.identity after.queue.separator =
          setting.identity server.queue.separator → NamedInTime setting after := by
        intro same
        have carry : ∀ {id}, JobNamed setting server id → JobNamed setting after id :=
          fun job => job.carry carries same
        have threads : after.threads = server.threads := by cases works <;> rfl
        have held : (∀ work ∈ after.queue.pending, work ∈ server.queue.pending) ∧
            ∀ claimed, after.queue.worker = .separating claimed →
              server.queue.worker = .separating claimed ∨
                claimed.work ∈ server.queue.pending := by
          rcases works.queue with same | ⟨action, step, other, -⟩
          · rw [same]
            exact ⟨fun _ member => member, fun _ busy => .inl busy⟩
          · exact Queue.Inner.work_step served step other
        refine ⟨fun entry filed => ?_,
          fun thread member => (named.points thread (threads ▸ member)).carry carries same,
          fun work member => carry (named.waiting work (held.1 work member)),
          fun claimed busy => ?_⟩
        · cases works with
          | written claimed busy before =>
              rcases List.mem_append.mp filed with old | new
              · exact named.entries entry old
              · rw [List.mem_singleton.mp new]
                exact (named.running claimed busy).2
          | _ => exact named.entries entry filed
        · rcases held.2 claimed busy with old | taken
          · exact carry (named.running claimed old)
          · exact carry (named.waiting claimed.work taken)
      cases works with
      | @answered queue done =>
          cases answering : server.queue.worker with
          -- The one step that changes models finds nothing keyed under the old one.
          | answering staged =>
              simp only [Queue.Inner.step, answering] at done
              cases done
              rcases inTime.2 staged.build (by simp [AppState.adopting, answering]) with
                same | ⟨empty, idle⟩
              · exact stay same
              · refine ⟨named.entries, fun thread member => ?_, ?_, fun _ is => by cases is⟩
                · have free := idle thread member
                  simp only [Point.outstanding, Bool.or_eq_false_iff, Option.isSome_eq_false_iff,
                    Option.isNone_iff_eq_none] at free
                  exact .empty free.1 free.2
                · intro work member
                  have nothing : work ∈ server.queue.pending := member
                  rw [List.isEmpty_iff.mp empty] at nothing
                  cases nothing
          | _ => simp [Queue.Inner.step, answering] at done
      | next done | built done | cleared _ done =>
          exact stay (congrArg _ (Queue.Inner.separator_step done (by simp)))
      | _ => exact stay rfl
  | evicted key =>
      refine ⟨fun entry filed => ?_, fun thread member => ⟨(named.points thread member).hashed,
        (named.points thread member).held⟩, named.waiting, named.running⟩
      simp only [Cache.evict] at filed
      split at filed
      · obtain ⟨old, inside, rfl | rfl⟩ := mem_modify filed
        · exact named.entries _ inside
        · exact named.entries old inside
      · exact named.entries entry filed
  | pruned =>
      have carry : ∀ {id}, JobNamed setting server id → JobNamed setting
          { server with store := server.store.prune server.cache.isEvicted server.clock } id :=
        fun job => job.carry carries rfl
      exact ⟨named.entries, fun thread member => (named.points thread member).carry carries rfl,
        fun work member => carry (named.waiting work member),
        fun claimed busy => carry (named.running claimed busy)⟩
  | ticked =>
      exact ⟨named.entries, fun thread member => ⟨(named.points thread member).hashed,
        (named.points thread member).held⟩, named.waiting, named.running⟩

variable [DecidableEq Sep]

omit [DecidableEq Sep] in
theorem named_start (setting : Setting R Sep) (model : Sep) (maxDepth retainFailed : Nat) :
    NamedInTime setting (.start model maxDepth retainFailed) where
  entries := by simp [AppState.start]
  points := by simp
  waiting := by simp
  running := by simp [Queue.Inner.start]

/-- As long as switches keep clear of both moments, every key names the model that made
what is filed under it. -/
theorem keys_name_their_models (setting : Setting R Sep) (model : Sep)
    (maxDepth retainFailed : Nat) (server : AppState R Sep)
    (run : (AppState.system setting model maxDepth retainFailed).Reaches (KeyedInTime setting)
      (.start model maxDepth retainFailed) server) : Agreement setting server := by
  refine (run.invariant (named_start setting model maxDepth retainFailed)
    fun before event after path named inTime done => ?_).agreement
  exact named.move (served_of_reaches path) inTime (move_of_step done)

/-- An upload, a switch that finds nothing on its way, and an upload under the new model. -/
theorem keys_name_both_models :
    ∃ server : AppState Unit String, server.cache.entries =
      [⟨"htdemucs", "htdemucs", false⟩, ⟨"hybrid", "hybrid", false⟩] ∧
        Agreement trackSetting server := by
  have filed : ∃ server : AppState Unit String,
      (AppState.system trackSetting "htdemucs" 4 60).Reaches (KeyedInTime trackSetting)
        (.start "htdemucs" 4 60) server ∧
          server.cache.entries = [⟨"htdemucs", "htdemucs", false⟩, ⟨"hybrid", "hybrid", false⟩] :=
    System.exists_of_replay
      (upload 0 ++ separation ++ .request "hybrid" :: List.replicate 5 (.advance 1 .plain) ++
        [.worker .next, .worker (.built .loaded), .worker .answered] ++
        List.replicate 5 (.advance 1 .plain) ++ upload 2 ++ separation) (by decide)
  obtain ⟨server, run, entries⟩ := filed
  exact ⟨server, entries, keys_name_their_models trackSetting "htdemucs" 4 60 server run⟩

/-- A switch staged while a job waits is taken first, and the job is then filed under the
key of the model before. -/
theorem switch_overtakes_job :
    ∃ server : AppState Unit String,
      (AppState.system trackSetting "htdemucs" 4 60).Reachable server ∧
        server.cache.entries = [⟨"htdemucs", "hybrid", false⟩] ∧
          ¬ Agreement trackSetting server := by
  have filed : ∃ server : AppState Unit String,
      (AppState.system trackSetting "htdemucs" 4 60).Reaches System.Any
        (.start "htdemucs" 4 60) server ∧
          server.cache.entries = [⟨"htdemucs", "hybrid", false⟩] :=
    System.exists_of_replay
      (upload 0 ++ .request "hybrid" :: List.replicate 5 (.advance 1 .plain) ++
        [.worker .next, .worker (.built .loaded), .worker .answered] ++ separation) (by decide)
  obtain ⟨server, run, entries⟩ := filed
  refine ⟨server, run, entries, fun agreement => ?_⟩
  obtain ⟨request, same⟩ := agreement.entries _ (entries ▸ List.mem_singleton_self _)
  have different : "htdemucs" ≠ "hybrid" := by decide
  exact different same

end Stemd.Server
