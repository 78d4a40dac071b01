import Stemd.Server.Machine

/-! What each step of the server does, once for every later proof.

A step is a thread's, the worker's, or the housekeeping's; thread steps that touch
nothing shared are kept together. -/

set_option autoImplicit false

namespace Stemd.Server

open Stemd.Core
open Stemd.Semantics

variable {R Sep : Type}

def AppState.advancing {α : Type} (server : AppState R Sep) (f : Choice → Point R Sep → Option α) :
    Event R Sep → Option α
  | .advance index choice => (server.threads[index]?).bind fun thread => f choice thread.point
  | _ => none

theorem advancing_eq_some {α : Type} {server : AppState R Sep}
    {f : Choice → Point R Sep → Option α} {event : Event R Sep} {a : α} :
    server.advancing f event = some a ↔ ∃ index choice thread, event = .advance index choice ∧
      server.threads[index]? = some thread ∧ f choice thread.point = some a := by
  cases event <;> simp [AppState.advancing, Option.bind_eq_some_iff]

/-- Passages that touch nothing shared and take nothing with them. -/
inductive Passes (server : AppState R Sep) : Point R Sep → Point R Sep → Prop where
  | hit (request : R) (key : String) : Passes server (.probing request key) .ended
  | miss (request : R) (key : String) :
      Passes server (.probing request key) (.claiming .drop request key)
  | gone (request : R) (key : String) : Passes server (.claiming .upload request key) .ended
  | decoded (request : R) (job : Nat) :
      Passes server (.decoding request job) (.submitting .upload request job)
  | polled (job : Nat) : Passes server (.polling job) .ended
  | absent (job client : Nat) : Passes server (.finding job client) .ended
  | busy (preset : Sep) : Passes server (.requesting preset) .ended
  | free (preset : Sep) (free : server.switch.busy = false) :
      Passes server (.requesting preset) (.comparing preset)
  | loaded (preset : Sep) : Passes server (.comparing preset) .ended
  | wanted (preset : Sep) : Passes server (.comparing preset) (.fetching preset)
  | missing (preset : Sep) : Passes server (.fetching preset) (.failing preset)
  | broken (preset : Sep) : Passes server (.staging preset) (.failing preset)

/-- Passages of a switch, which touch nothing but the switcher. -/
inductive Switches (server : AppState R Sep) :
    Point R Sep → Point R Sep → Sep → SwitchState Sep → Prop where
  | verifying (preset : Sep) :
      Switches server (.fetching preset) (.staging preset) server.current (.verifying preset)
  | downloading (preset : Sep) :
      Switches server (.fetching preset) (.staging preset) server.current (.downloading preset)
  | loading (preset : Sep) :
      Switches server (.staging preset) (.calling (.stage preset) (.record preset)) server.current
        (.loading preset)
  | recorded (preset : Sep) :
      Switches server (.recording preset) (.settling preset) preset server.switch
  | settled (preset : Sep) : Switches server (.settling preset) .ended server.current .idle
  | failed (preset : Sep) :
      Switches server (.failing preset) .ended server.current (.failed preset)

inductive Resumes (call : Queue.Call Nat Sep) : Resume Sep → Point R Sep → Prop where
  | calling (after : Resume Sep) : Resumes call after (.calling call after)
  | removing (job : Nat) : Resumes call (.remove job) (.removing job)
  | recording (preset : Sep) : Resumes call (.record preset) (.recording preset)
  | failing (preset : Sep) : Resumes call (.record preset) (.failing preset)
  | ended : Resumes call .exit .ended

theorem AppState.resumes (call : Queue.Call Nat Sep) (after : Resume Sep) :
    Resumes call after (AppState.resume call after : Point R Sep) := by
  cases after with
  | remove job =>
      simp only [AppState.resume]
      split
      · exact .removing job
      · exact .calling _
  | record preset =>
      simp only [AppState.resume]
      split
      · exact .recording preset
      · exact .failing preset
      · exact .calling _
  | exit =>
      simp only [AppState.resume]
      split
      · exact .ended
      · exact .calling _

inductive Spoils : (Job String → Job String) → Prop where
  | cancelled : Spoils Job.cancelled
  | failed (message : String) : Spoils (·.fail message)

inductive Acts (setting : Setting R Sep) (server : AppState R Sep) (thread : Thread R Sep) :
    Choice → AppState R Sep → Thread R Sep → Prop where
  | passed {choice : Choice} {point : Point R Sep} (passes : Passes server thread.point point) :
      Acts setting server thread choice server { thread with point := point }
  | switched {choice : Choice} {point : Point R Sep} (current : Sep) (switch : SwitchState Sep)
      (switches : Switches server thread.point point current switch) :
      Acts setting server thread choice { server with current := current, switch := switch }
        { thread with point := point }
  | identified (via : Via) (request : R) (here : thread.point = .arriving via request) :
      Acts setting server thread .plain server { thread with
        point := via.keyed request (setting.key request (setting.identity server.current)) }
  | joined (via : Via) (request : R) (key : String) (job : Nat)
      (here : thread.point = .claiming via request key)
      (found : server.store.inFlight key = some job) :
      Acts setting server thread .plain (server.change job (·.join)) { thread with
        holds := some job
        point := via.joiner job }
  | claimed (via : Via) (request : R) (key : String)
      (here : thread.point = .claiming via request key)
      (free : server.store.inFlight key = none) :
      Acts setting server thread .plain { server with store := { server.store with
          job := Function.update server.store.job server.store.attempts
            (.fresh key server.clock)
          attempts := server.store.attempts + 1
          byId := server.store.attempts :: server.store.byId
          byKey := Function.update server.store.byKey key (some server.store.attempts) } }
        { thread with
          holds := some server.store.attempts
          point := via.owner request server.store.attempts }
  | answered (request : R) (job entry : Nat) (here : thread.point = .reviewing request job)
      (hit : server.cache.get (server.store.job job).key = some entry) :
      Acts setting server thread .plain (server.change job (·.complete job entry true))
        { thread with point := .ended }
  | missed (request : R) (job : Nat) (here : thread.point = .reviewing request job)
      (miss : server.cache.get (server.store.job job).key = none) :
      Acts setting server thread .plain server { thread with point := .decoding request job }
  | rejected (request : R) (job : Nat) (message : String)
      (here : thread.point = .decoding request job) :
      Acts setting server thread (.rejected message) (server.change job (·.fail message))
        { thread with point := .ended }
  | abandoned {choice : Choice} (request : R) (job : Nat)
      (here : thread.point = .decoding request job)
      (how : choice = .panicked ∨ choice = .disconnect) :
      Acts setting server thread choice server { thread with point := .ended }
  | submitted (via : Via) (request : R) (job position : Nat) (queue : Queue.Inner Nat R Sep)
      (here : thread.point = .submitting via request job)
      (accepted : server.queue.submit ⟨job, request, setting.output request⟩ =
        .ok (position, queue)) :
      Acts setting server thread .plain
        { server.change job (·.setProgress (Queue.queuedProgress position (position + 1))) with
          queue := queue }
        { thread with point := via.queued job }
  | refused (request : R) (job : Nat) (full : Queue.QueueFull)
      (here : thread.point = .submitting .upload request job)
      (refusal : server.queue.submit ⟨job, request, setting.output request⟩ = .error full) :
      Acts setting server thread .plain (server.change job (·.fail (queueFull full.depth)))
        { thread with point := .ended }
  | droppedRefused (request : R) (job : Nat) (full : Queue.QueueFull)
      (here : thread.point = .submitting .drop request job)
      (refusal : server.queue.submit ⟨job, request, setting.output request⟩ = .error full) :
      Acts setting server thread .plain server { thread with point := .ended }
  | joinedAgain (job : Nat) (here : thread.point = .joining job) :
      Acts setting server thread .plain (server.change job (·.join))
        { thread with point := .polling job }
  | found (job client : Nat) (here : thread.point = .finding job client)
      (known : job ∈ server.store.byId) :
      Acts setting server thread .plain server { thread with point := .releasing job client }
  | released (job client : Nat) (here : thread.point = .releasing job client) :
      Acts setting server thread .plain ((server.change job (·.release)).release client)
        { thread with point :=
          if (server.store.job job).waiters - 1 > 0 then .ended
          else .calling (.cancelPending job) (.remove job) }
  | called {choice : Choice} (late : Bool) (call next : Queue.Call Nat Sep) (after : Resume Sep)
      (queue : Queue.Inner Nat R Sep) (here : thread.point = .calling call after)
      (advanced : call.advance late server.queue = some (queue, next)) :
      Acts setting server thread choice { server with queue := queue }
        { thread with point := AppState.resume next after }
  | removed (job : Nat) (here : thread.point = .removing job) :
      Acts setting server thread .plain { server with store := server.store.remove job }
        { thread with point := .ended }

inductive Works (server : AppState R Sep) : WorkerEvent → AppState R Sep → Prop where
  | next {queue : Queue.Inner Nat R Sep} (done : server.queue.step .next = some queue) :
      Works server .next { server with queue := queue, phase := .separating }
  | built {outcome : Queue.BuildOutcome} {queue : Queue.Inner Nat R Sep}
      (done : server.queue.step (.built outcome) = some queue) :
      Works server (.built outcome) { server with queue := queue }
  | answered {queue : Queue.Inner Nat R Sep} (done : server.queue.step .answered = some queue) :
      Works server .answered { server with queue := queue }
  | progressed {event : WorkerEvent} (claimed : Queue.Claimed Nat R) (progress : Progress)
      (phase : Phase) (busy : server.queue.worker = .separating claimed)
      (before : server.phase = .separating) (after : phase = .separating ∨ phase = .writing)
      (live : progress.stage.isTerminal = false) :
      Works server event
        { server.change claimed.work.job (·.setProgress progress) with phase := phase }
  | cancelled (claimed : Queue.Claimed Nat R) (busy : server.queue.worker = .separating claimed)
      (before : server.phase = .separating)
      (raised : server.queue.flags[claimed.cancel]? = some true) :
      Works server .cancelled
        { server.change claimed.work.job Job.cancelled with phase := .settled }
  | spoiled {event : WorkerEvent} (claimed : Queue.Claimed Nat R) (message : String)
      (busy : server.queue.worker = .separating claimed)
      (before : server.phase = .separating ∨ server.phase = .writing)
      (how : (∃ m, event = .failed m) ∨ (∃ m, event = .panicked m) ∨ ∃ m, event = .unwritten m) :
      Works server event
        { server.change claimed.work.job (·.fail message) with phase := .settled }
  | written (claimed : Queue.Claimed Nat R) (busy : server.queue.worker = .separating claimed)
      (before : server.phase = .writing) :
      Works server .written { server with
        cache := (server.cache.publish (server.store.job claimed.work.job).key
          server.queue.separator).2
        phase := .published server.cache.entries.length }
  | completed (claimed : Queue.Claimed Nat R) (entry : Nat)
      (busy : server.queue.worker = .separating claimed)
      (before : server.phase = .published entry) :
      Works server .completed
        { server.change claimed.work.job (·.complete claimed.work.job entry false) with
          phase := .settled }
  | cleared {queue : Queue.Inner Nat R Sep} (before : server.phase = .settled)
      (done : server.queue.step .finished = some queue) :
      Works server .cleared { server with queue := queue, phase := .separating }

inductive Enters : Event R Sep → Point R Sep → Prop where
  | arrive (via : Via) (request : R) : Enters (.arrive via request) (.arriving via request)
  | delete (job client : Nat) : Enters (.delete job client) (.finding job client)
  | request (preset : Sep) : Enters (.request preset) (.requesting preset)
  | exit : Enters .exit (.calling .shut .exit)

inductive Move (setting : Setting R Sep) (server : AppState R Sep) :
    Event R Sep → AppState R Sep → Prop where
  | entered {event : Event R Sep} {point : Point R Sep} (enters : Enters event point) :
      Move setting server event (server.spawn point)
  | thread {index : Nat} {choice : Choice} {thread next : Thread R Sep} {after : AppState R Sep}
      (here : server.threads[index]? = some thread)
      (acts : Acts setting server thread choice after next) :
      Move setting server (.advance index choice)
        { after with threads := after.threads.set index next }
  | worker {event : WorkerEvent} {after : AppState R Sep} (works : Works server event after) :
      Move setting server (.worker event) after
  | evicted (key : String) :
      Move setting server (.evict key) { server with cache := server.cache.evict key }
  | pruned :
      Move setting server .prune
        { server with store := server.store.prune server.cache.isEvicted server.clock }
  | ticked : Move setting server .tick { server with clock := server.clock + 1 }

theorem works_of_work {server after : AppState R Sep} {event : WorkerEvent}
    (done : server.work event = some after) : Works server event after := by
  cases event with
  | next =>
      obtain ⟨queue, step, rfl⟩ := Option.map_eq_some_iff.mp done
      exact .next step
  | built outcome =>
      obtain ⟨queue, step, rfl⟩ := Option.map_eq_some_iff.mp done
      exact .built step
  | answered =>
      obtain ⟨queue, step, rfl⟩ := Option.map_eq_some_iff.mp done
      exact .answered step
  | report progress =>
      simp only [AppState.work] at done
      split at done
      · rename_i claimed busy before
        split at done <;> cases done
        rename_i live
        exact .progressed claimed progress server.phase busy before (.inl before)
          (by simpa using live)
      · cases done
  | separated =>
      simp only [AppState.work] at done
      split at done
      · rename_i claimed busy before
        cases done
        exact .progressed claimed _ .writing busy before (.inr rfl) rfl
      · cases done
  | cancelled =>
      simp only [AppState.work] at done
      split at done
      · rename_i claimed busy before
        split at done <;> cases done
        rename_i raised
        exact .cancelled claimed busy before raised
      · cases done
  | failed message =>
      simp only [AppState.work] at done
      split at done
      · rename_i claimed busy before
        cases done
        exact .spoiled claimed message busy (.inl before) (.inl ⟨message, rfl⟩)
      · cases done
  | panicked what =>
      simp only [AppState.work] at done
      split at done
      · rename_i claimed busy before
        cases done
        exact .spoiled claimed _ busy (.inl before) (.inr (.inl ⟨what, rfl⟩))
      · rename_i claimed busy before
        cases done
        exact .spoiled claimed _ busy (.inr before) (.inr (.inl ⟨what, rfl⟩))
      · cases done
  | written =>
      simp only [AppState.work] at done
      split at done
      · rename_i claimed busy before
        cases done
        exact .written claimed busy before
      · cases done
  | unwritten message =>
      simp only [AppState.work] at done
      split at done
      · rename_i claimed busy before
        cases done
        exact .spoiled claimed _ busy (.inr before) (.inr (.inr ⟨message, rfl⟩))
      · cases done
  | completed =>
      simp only [AppState.work] at done
      split at done
      · rename_i claimed entry busy before
        cases done
        exact .completed claimed entry busy before
      · cases done
  | cleared =>
      simp only [AppState.work] at done
      split at done
      · rename_i before
        obtain ⟨queue, step, rfl⟩ := Option.map_eq_some_iff.mp done
        exact .cleared before step
      · cases done

variable [DecidableEq Sep]

theorem acts_of_act {setting : Setting R Sep} {server after : AppState R Sep}
    {thread next : Thread R Sep} {choice : Choice}
    (done : server.act setting thread choice = some (after, next)) :
    Acts setting server thread choice after next := by
  have pass : ∀ {point : Point R Sep}, Passes server thread.point point → after = server →
      next = { thread with point := point } → Acts setting server thread choice after next := by
    rintro point passes rfl rfl
    exact .passed passes
  have switch : ∀ {point : Point R Sep} (current : Sep) (state : SwitchState Sep),
      Switches server thread.point point current state →
        after = { server with current := current, switch := state } →
          next = { thread with point := point } →
            Acts setting server thread choice after next := by
    rintro point current state switches rfl rfl
    exact .switched current state switches
  unfold AppState.act at done
  split at done
  case h_1 via request here =>
      cases done
      exact .identified via request here
  case h_2 request key here =>
      split at done <;> cases done
      · exact pass (by rw [here]; exact .hit request key) rfl rfl
      · exact pass (by rw [here]; exact .miss request key) rfl rfl
  case h_3 request key here =>
      cases done
      exact pass (by rw [here]; exact .gone request key) rfl rfl
  case h_4 via request key here =>
      split at done
      · rename_i job store claim
        cases done
        obtain ⟨free, rfl, rfl⟩ := JobStore.claim_ok claim
        exact .claimed via request key here free
      · rename_i job store claim
        cases done
        obtain ⟨found, rfl⟩ := JobStore.claim_error claim
        exact .joined via request key job here found
  case h_5 request job here =>
      split at done
      · rename_i entry hit
        cases done
        exact .answered request job entry here hit
      · rename_i miss
        cases done
        exact .missed request job here miss
  case h_6 request job here =>
      cases done
      exact pass (by rw [here]; exact .decoded request job) rfl rfl
  case h_7 request job message here =>
      cases done
      exact .rejected request job message here
  case h_8 request job here =>
      cases done
      exact .abandoned request job here (.inl rfl)
  case h_9 request job here =>
      cases done
      exact .abandoned request job here (.inr rfl)
  case h_10 via request job here =>
      split at done
      · rename_i position queue accepted
        cases done
        exact .submitted via request job position queue here accepted
      · rename_i full refusal
        split at done <;> cases done
        · exact .refused request job full here refusal
        · exact .droppedRefused request job full here refusal
  case h_11 job here =>
      cases done
      exact .joinedAgain job here
  case h_12 job here =>
      split at done <;> cases done
      exact pass (by rw [here]; exact .polled job) rfl rfl
  case h_13 job client here =>
      split at done
      · rename_i known
        cases done
        exact .found job client here (of_decide_eq_true known)
      · cases done
        exact pass (by rw [here]; exact .absent job client) rfl rfl
  case h_14 job client here =>
      have acts : Acts setting server thread .plain _ _ := .released job client here
      have waiters : (((server.change job (·.release)).release client).store.job job).waiters =
          (server.store.job job).waiters - 1 := by
        simp [AppState.change, AppState.release, Job.release]
      simp only [waiters] at done
      split at done <;> rename_i left <;> simp only [left, if_true, if_false] at acts <;>
        cases done <;> exact acts
  case h_15 call resume here =>
      obtain ⟨⟨queue, moved⟩, advanced, same⟩ := Option.map_eq_some_iff.mp done
      cases same
      exact .called false call moved resume queue here advanced
  case h_16 call resume here =>
      obtain ⟨⟨queue, moved⟩, advanced, same⟩ := Option.map_eq_some_iff.mp done
      cases same
      exact .called true call moved resume queue here advanced
  case h_17 job here =>
      cases done
      exact .removed job here
  case h_18 preset here =>
      cases done
      refine pass ?_ rfl rfl
      rw [here]
      split
      · exact .busy preset
      · rename_i free
        exact .free preset (by simpa using free)
  case h_19 preset here =>
      cases done
      refine pass ?_ rfl rfl
      rw [here]
      split
      · exact .loaded preset
      · exact .wanted preset
  case h_20 preset here =>
      cases done
      exact switch server.current _ (by rw [here]; exact .verifying preset) rfl rfl
  case h_21 preset here =>
      cases done
      exact switch server.current _ (by rw [here]; exact .downloading preset) rfl rfl
  case h_22 preset here =>
      cases done
      exact pass (by rw [here]; exact .missing preset) rfl rfl
  case h_23 preset here =>
      cases done
      exact switch server.current _ (by rw [here]; exact .loading preset) rfl rfl
  case h_24 preset here =>
      cases done
      exact pass (by rw [here]; exact .broken preset) rfl rfl
  case h_25 preset here =>
      cases done
      exact switch preset _ (by rw [here]; exact .recorded preset) rfl rfl
  case h_26 preset here =>
      cases done
      exact switch server.current _ (by rw [here]; exact .settled preset) rfl rfl
  case h_27 preset here =>
      cases done
      exact switch server.current _ (by rw [here]; exact .failed preset) rfl rfl
  case h_28 => cases done

theorem act_of_step {setting : Setting R Sep} {server after : AppState R Sep}
    {thread : Thread R Sep} {index : Nat} {choice : Choice}
    (here : server.threads[index]? = some thread)
    (done : server.step setting (.advance index choice) = some after) :
    ∃ moved next, server.act setting thread choice = some (moved, next) ∧
      after = { moved with threads := moved.threads.set index next } := by
  simp only [AppState.step, here, Option.bind_eq_bind, Option.bind_some,
    Option.bind_eq_some_iff] at done
  obtain ⟨⟨moved, next⟩, act, same⟩ := done
  exact ⟨moved, next, act, (Option.some.inj same).symm⟩

theorem move_of_step {setting : Setting R Sep} {server after : AppState R Sep} {event : Event R Sep}
    (done : server.step setting event = some after) : Move setting server event after := by
  cases event with
  | arrive via request =>
      cases done
      exact .entered (.arrive via request)
  | delete job client =>
      cases done
      exact .entered (.delete job client)
  | request preset =>
      cases done
      exact .entered (.request preset)
  | exit =>
      cases done
      exact .entered .exit
  | advance index choice =>
      simp only [AppState.step, Option.bind_eq_bind, Option.bind_eq_some_iff] at done
      obtain ⟨thread, here, ⟨moved, next⟩, act, same⟩ := done
      cases same
      exact .thread here (acts_of_act act)
  | worker event => exact .worker (works_of_work done)
  | evict key =>
      cases done
      exact .evicted key
  | prune =>
      cases done
      exact .pruned
  | tick =>
      cases done
      exact .ticked

/-! Consequences every later invariant rests on. -/

omit [DecidableEq Sep]

def Point.held : Point R Sep → Option Nat
  | .reviewing _ job | .decoding _ job | .submitting _ _ job => some job
  | _ => none

@[simp] theorem Via.keyed_held (via : Via) (request : R) (key : String) :
    (via.keyed request key : Point R Sep).held = none := by cases via <;> rfl

@[simp] theorem Via.owner_held (via : Via) (request : R) (job : Nat) :
    (via.owner request job : Point R Sep).held = some job := by cases via <;> rfl

@[simp] theorem Via.joiner_held (via : Via) (job : Nat) :
    (via.joiner job : Point R Sep).held = none := by cases via <;> rfl

@[simp] theorem Via.queued_held (via : Via) (job : Nat) :
    (via.queued job : Point R Sep).held = none := by cases via <;> rfl

theorem Resumes.held {call : Queue.Call Nat Sep} {after : Resume Sep} {point : Point R Sep}
    (resumes : Resumes call after point) : point.held = none := by cases resumes <;> rfl

theorem Passes.held {server : AppState R Sep} {point next : Point R Sep}
    (passes : Passes server point next) :
    next.held = point.held := by cases passes <;> rfl

theorem Switches.held {server : AppState R Sep} {point next : Point R Sep} {current : Sep}
    {switch : SwitchState Sep} (switches : Switches server point next current switch) :
    point.held = none ∧ next.held = none := by cases switches <;> exact ⟨rfl, rfl⟩

theorem mem_modify {α : Type} {l : List α} {index : Nat} {f : α → α} {a : α}
    (member : a ∈ l.modify index f) : ∃ old ∈ l, a = old ∨ a = f old := by
  obtain ⟨place, found⟩ := List.getElem?_of_mem member
  rw [List.getElem?_modify] at found
  obtain ⟨old, here, rfl⟩ := Option.map_eq_some_iff.mp found
  refine ⟨old, List.mem_of_getElem? here, ?_⟩
  split
  · exact .inr rfl
  · exact .inl rfl

theorem Acts.mem_threads {setting : Setting R Sep} {server after : AppState R Sep}
    {thread next : Thread R Sep} {choice : Choice}
    (acts : Acts setting server thread choice after next) (index : Nat) :
    ∀ t ∈ after.threads.set index next, t = next ∨
      ∃ old ∈ server.threads, t.point = old.point ∧ t.holds = old.holds := by
  intro t member
  rcases List.mem_or_eq_of_mem_set member with old | new
  · right
    cases acts with
    | released job client here =>
        obtain ⟨before, inside, rfl | rfl⟩ := mem_modify old
        · exact ⟨t, inside, rfl, rfl⟩
        · exact ⟨before, inside, rfl, rfl⟩
    | _ => exact ⟨t, old, rfl, rfl⟩
  · exact .inl new

theorem Acts.bystander {setting : Setting R Sep} {server after : AppState R Sep}
    {thread next old : Thread R Sep} {choice : Choice} {index place : Nat}
    (acts : Acts setting server thread choice after next)
    (there : server.threads[place]? = some old) (other : place ≠ index) :
    ∃ t, (after.threads.set index next)[place]? = some t ∧ t.point = old.point ∧
      t.holds = old.holds ∧ (old.letGo = true → t.letGo = true) := by
  rw [List.getElem?_set_ne other.symm]
  cases acts with
  | released job client here =>
      refine ⟨if client = place then { old with letGo := true } else old, ?_, ?_⟩
      · simp only [AppState.release, AppState.change, List.getElem?_modify, there]
        split <;> rfl
      · split <;> simp
  | _ => exact ⟨old, there, rfl, rfl, id⟩

theorem Acts.queue {setting : Setting R Sep} {server after : AppState R Sep}
    {thread next : Thread R Sep} {choice : Choice}
    (acts : Acts setting server thread choice after next) :
    after.queue = server.queue ∨
      (∃ action, server.queue.step action = some after.queue ∧ action.isCallers = true) ∨
      ∃ via request job position, thread.point = .submitting via request job ∧
        server.queue.submit ⟨job, request, setting.output request⟩ =
          .ok (position, after.queue) := by
  cases acts with
  | called late call moved resume queue here advanced =>
      rcases Queue.Call.advance_inner advanced with same | ⟨action, step, callers, -⟩
      · exact .inl same
      · exact .inr (.inl ⟨action, step, callers⟩)
  | submitted via request job position queue here accepted =>
      exact .inr (.inr ⟨via, request, job, position, here, accepted⟩)
  | _ => exact .inl rfl

theorem Works.queue {server after : AppState R Sep} {event : WorkerEvent}
    (works : Works server event after) :
    after.queue = server.queue ∨ ∃ action, server.queue.step action = some after.queue ∧
      (∀ work, action ≠ .submit work) ∧ (action = .answered → event = .answered) := by
  cases works with
  | next done | built done | cleared _ done => exact .inr ⟨_, done, (by simp), by simp⟩
  | answered done => exact .inr ⟨_, done, (by simp), fun _ => rfl⟩
  | _ => exact .inl rfl

theorem Move.queue {setting : Setting R Sep} {server after : AppState R Sep}
    {event : Event R Sep} (move : Move setting server event after) :
    after.queue = server.queue ∨ ∃ action, server.queue.step action = some after.queue := by
  cases move with
  | thread here acts =>
      rcases acts.queue with same | ⟨action, step, -⟩ | ⟨_, request, job, _, -, accepted⟩
      · exact .inl same
      · exact .inr ⟨action, step⟩
      · exact .inr ⟨.submit ⟨job, request, setting.output request⟩, by
          rw [Queue.Inner.step, accepted]⟩
  | worker works =>
      rcases works.queue with same | ⟨action, step, -⟩
      · exact .inl same
      · exact .inr ⟨action, step⟩
  | entered | evicted | pruned | ticked => exact .inl rfl

theorem Move.served {setting : Setting R Sep} {server after : AppState R Sep}
    {event : Event R Sep} (move : Move setting server event after)
    (served : server.queue.Served) : after.queue.Served := by
  rcases move.queue with same | ⟨action, step⟩
  · rw [same]
    exact served
  · exact served.step step

theorem served_of_reaches [DecidableEq Sep] {setting : Setting R Sep} {model : Sep}
    {maxDepth retainFailed : Nat} {ok : AppState R Sep → Event R Sep → Prop}
    {server : AppState R Sep}
    (run : (AppState.system setting model maxDepth retainFailed).Reaches ok
      (.start model maxDepth retainFailed) server) : server.queue.Served :=
  run.invariant (Queue.Inner.start_served model maxDepth)
    fun _ _ _ _ served _ done => (move_of_step done).served served

structure Carries (store after : JobStore String) : Prop where
  attempts : store.attempts ≤ after.attempts
  keys : ∀ id < store.attempts, (after.job id).key = (store.job id).key

theorem Carries.refl (store : JobStore String) : Carries store store :=
  ⟨Nat.le_refl _, fun _ _ => rfl⟩

theorem carries_update (store : JobStore String) (id : Nat) (change : Job String → Job String)
    (kept : ∀ job, (change job).key = job.key) : Carries store (store.update id change) where
  attempts := Nat.le_refl _
  keys := fun other _ => by
    rw [JobStore.update_job]
    split
    · rename_i same
      rw [kept, same]
    · rfl

theorem carries_unregisters {store after : JobStore String}
    (unregisters : JobStore.Unregisters store after) : Carries store after :=
  ⟨Nat.le_of_eq unregisters.attempts.symm, fun id _ => by rw [unregisters.job]⟩

theorem Acts.carries {setting : Setting R Sep} {server after : AppState R Sep}
    {thread next : Thread R Sep} {choice : Choice}
    (acts : Acts setting server thread choice after next) :
    Carries server.store after.store := by
  cases acts with
  | claimed via request key here free =>
      refine ⟨Nat.le_succ _, fun id old => ?_⟩
      exact congrArg Job.key (Function.update_of_ne (Nat.ne_of_lt old) _ _)
  | joined via request key job _ _ => exact carries_update _ job Job.join fun _ => rfl
  | answered request job entry _ _ =>
      exact carries_update _ job (·.complete job entry true) fun _ => rfl
  | rejected request job message _ => exact carries_update _ job (·.fail message) fun _ => rfl
  | submitted via request job position queue _ _ =>
      exact carries_update _ job
        (·.setProgress (Queue.queuedProgress position (position + 1))) fun _ => rfl
  | refused request job full _ _ =>
      exact carries_update _ job (·.fail (queueFull full.depth)) fun _ => rfl
  | joinedAgain job _ => exact carries_update _ job Job.join fun _ => rfl
  | released job client _ => exact carries_update _ job Job.release fun _ => rfl
  | removed job here => exact carries_unregisters (server.store.remove_unregisters job)
  | _ => exact .refl _

theorem Works.carries {server after : AppState R Sep} {event : WorkerEvent}
    (works : Works server event after) : Carries server.store after.store := by
  cases works with
  | progressed claimed progress _ _ _ _ _ =>
      exact carries_update _ claimed.work.job (·.setProgress progress) fun _ => rfl
  | cancelled claimed _ _ _ => exact carries_update _ claimed.work.job Job.cancelled fun _ => rfl
  | spoiled claimed message _ _ _ =>
      exact carries_update _ claimed.work.job (·.fail message) fun _ => rfl
  | completed claimed entry _ _ =>
      exact carries_update _ claimed.work.job (·.complete claimed.work.job entry false)
        fun _ => rfl
  | _ => exact .refl _

theorem Move.carries {setting : Setting R Sep} {server after : AppState R Sep}
    {event : Event R Sep} (move : Move setting server event after) :
    Carries server.store after.store := by
  cases move with
  | thread here acts => exact acts.carries
  | worker works => exact works.carries
  | pruned => exact carries_unregisters (server.store.prune_unregisters _ _)
  | entered | evicted | ticked => exact .refl _

def Point.isDelete : Point R Sep → Bool
  | .finding _ _ | .releasing _ _ | .calling _ (.remove _) | .removing _ => true
  | _ => false

def Resume.removes : Resume Sep → Option Nat
  | .remove job => some job
  | _ => none

def Point.Paired : Point R Sep → Prop
  | .calling call after => call.cancels = after.removes
  | _ => True

theorem Resumes.paired {call : Queue.Call Nat Sep} {after : Resume Sep} {point : Point R Sep}
    (resumes : Resumes call after point) (same : call.cancels = after.removes) :
    point.Paired := by
  cases resumes with
  | calling _ => exact same
  | _ => trivial

theorem Passes.paired {server : AppState R Sep} {point next : Point R Sep}
    (passes : Passes server point next) : next.Paired := by
  cases passes <;> trivial

theorem Switches.paired {server : AppState R Sep} {point next : Point R Sep} {current : Sep}
    {switch : SwitchState Sep} (switches : Switches server point next current switch) :
    next.Paired := by
  cases switches <;> trivial

theorem Acts.paired {setting : Setting R Sep} {server after : AppState R Sep}
    {thread next : Thread R Sep} {choice : Choice}
    (acts : Acts setting server thread choice after next) (paired : thread.point.Paired) :
    next.point.Paired := by
  cases acts with
  | passed passes => exact passes.paired
  | switched current switch switches => exact switches.paired
  | identified via _ _ | joined via _ _ _ _ _ | claimed via _ _ _ _ | submitted via _ _ _ _ _ _ =>
      cases via <;> trivial
  | released job client here =>
      dsimp only
      split <;> trivial
  | called late call moved resume queue here advanced =>
      rw [here] at paired
      exact (AppState.resumes _ _).paired ((Queue.Call.advance_cancels advanced).trans paired)
  | _ => trivial

theorem Works.threads {server after : AppState R Sep} {event : WorkerEvent}
    (works : Works server event after) : after.threads = server.threads := by
  cases works <;> rfl

inductive Origin (setting : Setting R Sep) (server after : AppState R Sep) (event : Event R Sep)
    (thread : Thread R Sep) : Prop where
  | stayed {old : Thread R Sep} (inside : old ∈ server.threads) (point : thread.point = old.point)
      (holds : thread.holds = old.holds)
  | entered (enters : Enters event thread.point) (holds : thread.holds = none)
      (letGo : thread.letGo = false)
  | acted {index : Nat} {choice : Choice} {old : Thread R Sep} {moved : AppState R Sep}
      (is : event = .advance index choice) (here : server.threads[index]? = some old)
      (acts : Acts setting server old choice moved thread)
      (same : after = { moved with threads := moved.threads.set index thread })

theorem Move.origin {setting : Setting R Sep} {server after : AppState R Sep}
    {event : Event R Sep} (move : Move setting server event after) {thread : Thread R Sep}
    (member : thread ∈ after.threads) : Origin setting server after event thread := by
  cases move with
  | @entered _ point enters =>
      rcases List.mem_append.mp member with old | new
      · exact .stayed old rfl rfl
      · cases List.mem_singleton.mp new
        exact .entered enters rfl rfl
  | @thread index choice before next moved here acts =>
      rcases acts.mem_threads index thread member with rfl | ⟨old, inside, point, holds⟩
      · exact .acted rfl here acts rfl
      · exact .stayed inside point holds
  | worker works => exact .stayed (works.threads ▸ member) rfl rfl
  | evicted | pruned | ticked => exact .stayed member rfl rfl

theorem Move.points {setting : Setting R Sep} {server after : AppState R Sep}
    {event : Event R Sep} {P : Point R Sep → Prop} (move : Move setting server event after)
    (before : ∀ thread ∈ server.threads, P thread.point)
    (enters : ∀ point, Enters event point → P point)
    (acts : ∀ {thread next : Thread R Sep} {choice : Choice} {moved : AppState R Sep},
      Acts setting server thread choice moved next → P thread.point → P next.point) :
    ∀ thread ∈ after.threads, P thread.point := by
  intro t member
  cases move.origin member with
  | stayed inside point =>
      rw [point]
      exact before _ inside
  | entered enter => exact enters _ enter
  | acted _ here act => exact acts act (before _ (List.mem_of_getElem? here))

theorem paired_of_reaches [DecidableEq Sep] {setting : Setting R Sep} {model : Sep}
    {maxDepth retainFailed : Nat} {ok : AppState R Sep → Event R Sep → Prop}
    {server : AppState R Sep}
    (run : (AppState.system setting model maxDepth retainFailed).Reaches ok
      (.start model maxDepth retainFailed) server) :
    ∀ thread ∈ server.threads, thread.point.Paired :=
  run.invariant (P := fun server => ∀ thread ∈ server.threads, thread.point.Paired) (by simp)
    fun _ _ _ _ paired _ done => (move_of_step done).points paired
      (fun _ enter => by cases enter <;> trivial) fun acts mine => acts.paired mine

end Stemd.Server
