import Stemd.Queue.Calls
import Stemd.Server.Jobs

/-! The server: requests, the store, the cache's index, the queue and its worker.

Every request is a thread that takes one lock, or awaits once, a step. What the bodies
carry decides nothing here and is left to a parameter, as is the hash: it keeps the
identities of two models apart and is otherwise free. -/

set_option autoImplicit false

namespace Stemd.Server

open Stemd.Core
open Stemd.Semantics

structure Setting (R Sep : Type) where
  key : R → String → String
  identity : Sep → String
  output : R → Output
  /-- No two requests are filed alike under two identities. -/
  names : ∀ request request' name name',
    key request name = key request' name' → name = name'

structure Entry (Sep : Type) where
  key : String
  /-- The separator that produced the stems. -/
  separatedBy : Sep
  evicted : Bool
  deriving DecidableEq

structure Cache (Sep : Type) where
  entries : List (Entry Sep)
  index : String → Option Nat

namespace Cache

variable {Sep : Type}

def get (cache : Cache Sep) (key : String) : Option Nat := cache.index key

def publish (cache : Cache Sep) (key : String) (separator : Sep) : Nat × Cache Sep :=
  (cache.entries.length, {
    entries := cache.entries ++ [⟨key, separator, false⟩]
    index := Function.update cache.index key (some cache.entries.length) })

/-- The entry goes from the index and every handle on it reads as evicted. -/
def evict (cache : Cache Sep) (key : String) : Cache Sep where
  entries := match cache.index key with
    | some entry => cache.entries.modify entry fun e => { e with evicted := true }
    | none => cache.entries
  index := Function.update cache.index key none

def isEvicted (cache : Cache Sep) (entry : Nat) : Bool :=
  (cache.entries[entry]?).any (·.evicted)

end Cache

inductive SwitchState (Sep : Type) where
  | idle
  | downloading (preset : Sep)
  | verifying (preset : Sep)
  | loading (preset : Sep)
  | failed (preset : Sep)
  deriving DecidableEq

def SwitchState.busy {Sep : Type} : SwitchState Sep → Bool
  | .downloading _ | .verifying _ | .loading _ => true
  | _ => false

inductive Phase where
  | separating
  | writing
  | published (entry : Nat)
  | settled
  deriving DecidableEq, Repr

inductive Via where
  | upload
  | drop
  deriving DecidableEq, Repr

inductive Resume (Sep : Type) where
  | remove (job : Nat)
  | record (preset : Sep)
  | exit
  deriving DecidableEq

/-- Where a thread stands; each is about to do what it is named after. -/
inductive Point (R Sep : Type) where
  | arriving (via : Via) (request : R)
  /-- A drop looks in the cache before it claims. -/
  | probing (request : R) (key : String)
  | claiming (via : Via) (request : R) (key : String)
  /-- An upload looks in the cache after it has claimed. -/
  | reviewing (request : R) (job : Nat)
  | decoding (request : R) (job : Nat)
  | submitting (via : Via) (request : R) (job : Nat)
  /-- A drop that found the key in flight calls `join` on what it found. -/
  | joining (job : Nat)
  | polling (job : Nat)
  | finding (job client : Nat)
  | releasing (job client : Nat)
  | calling (call : Queue.Call Nat Sep) (after : Resume Sep)
  | removing (job : Nat)
  | requesting (preset : Sep)
  | comparing (preset : Sep)
  | fetching (preset : Sep)
  | staging (preset : Sep)
  | recording (preset : Sep)
  | settling (preset : Sep)
  | failing (preset : Sep)
  | ended
  deriving DecidableEq

/-- With a key in hand, a drop looks in the cache first. -/
def Via.keyed {R Sep : Type} (request : R) (key : String) : Via → Point R Sep
  | .upload => .claiming .upload request key
  | .drop => .probing request key

/-- With a job of its own, an upload looks in the cache and decodes. -/
def Via.owner {R Sep : Type} (request : R) (job : Nat) : Via → Point R Sep
  | .upload => .reviewing request job
  | .drop => .submitting .drop request job

/-- With a job in flight, an upload is answered. -/
def Via.joiner {R Sep : Type} (job : Nat) : Via → Point R Sep
  | .upload => .ended
  | .drop => .joining job

/-- With its job queued, an upload is answered and a drop waits. -/
def Via.queued {R Sep : Type} (job : Nat) : Via → Point R Sep
  | .upload => .ended
  | .drop => .polling job

/-- A thread, and the job its requester claimed or joined until a `DELETE` in its name
released it. The last two are for the statements only. -/
structure Thread (R Sep : Type) where
  point : Point R Sep
  holds : Option Nat
  letGo : Bool
  deriving DecidableEq

structure AppState (R Sep : Type) where
  store : JobStore String
  cache : Cache Sep
  queue : Queue.Inner Nat R Sep
  phase : Phase
  current : Sep
  switch : SwitchState Sep
  threads : List (Thread R Sep)
  clock : Nat

/-- How what a thread meets on its way turns out. -/
inductive Choice where
  | plain
  /-- A stop finds its grace period run out. -/
  | late
  /-- The client goes away and the handler is dropped where it awaits. -/
  | disconnect
  | rejected (message : String)
  | panicked
  /-- The artefact has to be fetched first. -/
  | download
  | unavailable
  deriving DecidableEq, Repr

inductive WorkerEvent where
  | next
  | built (outcome : Queue.BuildOutcome)
  | answered
  | report (progress : Progress)
  | separated
  | cancelled
  | failed (message : String)
  | panicked (what : String)
  | written
  | unwritten (message : String)
  | completed
  | cleared

inductive Event (R Sep : Type) where
  | arrive (via : Via) (request : R)
  | delete (job client : Nat)
  | request (preset : Sep)
  | exit
  | advance (thread : Nat) (choice : Choice)
  | worker (event : WorkerEvent)
  | evict (key : String)
  | prune
  | tick

def queueFull (depth : Nat) : String := s!"queue is full ({depth} waiting)"

namespace AppState

variable {R Sep : Type}

def start (model : Sep) (maxDepth retainFailed : Nat) : AppState R Sep where
  store := .new retainFailed
  cache := ⟨[], fun _ => none⟩
  queue := .start model maxDepth
  phase := .separating
  current := model
  switch := .idle
  threads := []
  clock := 0

@[simp] theorem start_threads (model : Sep) (maxDepth retainFailed : Nat) :
    (start model maxDepth retainFailed : AppState R Sep).threads = [] := rfl

@[simp] theorem start_queue (model : Sep) (maxDepth retainFailed : Nat) :
    (start model maxDepth retainFailed : AppState R Sep).queue = .start model maxDepth := rfl

def change (server : AppState R Sep) (id : Nat) (change : Job String → Job String) :
    AppState R Sep :=
  { server with store := server.store.update id change }

def resume (call : Queue.Call Nat Sep) : Resume Sep → Point R Sep
  | .remove job => match call with
      | .cancelReturned _ _ => .removing job
      | _ => .calling call (.remove job)
  | .record preset => match call with
      | .installReturned (.loaded _) => .recording preset
      | .installReturned _ => .failing preset
      | _ => .calling call (.record preset)
  | .exit => match call with
      | .stopReturned _ => .ended
      | _ => .calling call .exit

def release (server : AppState R Sep) (client : Nat) : AppState R Sep :=
  { server with threads := server.threads.modify client fun t => { t with letGo := true } }

variable [DecidableEq Sep]

/-- `create_job`, `drops::separate`, `delete_job`, `Switcher::request` and
`Switcher::run`, one step at a time. -/
def act (setting : Setting R Sep) (server : AppState R Sep) (thread : Thread R Sep)
    (choice : Choice) : Option (AppState R Sep × Thread R Sep) :=
  match thread.point, choice with
  -- The identity is the switcher's: the worker's model may be another by now.
  | .arriving via request, .plain =>
      let key := setting.key request (setting.identity server.current)
      some (server, { thread with point := via.keyed request key })
  | .probing request key, .plain => match server.cache.get key with
      | some _ => some (server, { thread with point := .ended })
      | none => some (server, { thread with point := .claiming .drop request key })
  -- Dropped while `hash_upload` runs, with nothing claimed.
  | .claiming .upload _ _, .disconnect => some (server, { thread with point := .ended })
  | .claiming via request key, .plain => match server.store.claim key server.clock with
      | (.ok job, store) => some ({ server with store := store }, { thread with
          holds := some job
          point := via.owner request job })
      | (.error job, store) => some ({ server with store := store }, { thread with
          holds := some job
          point := via.joiner job })
  | .reviewing request job, .plain => match server.cache.get (server.store.job job).key with
      | some entry => some (server.change job (·.complete job entry true),
          { thread with point := .ended })
      | none => some (server, { thread with point := .decoding request job })
  | .decoding request job, .plain =>
      some (server, { thread with point := .submitting .upload request job })
  -- A payload that does not decode fails the job; a panic of the decode task, and a
  -- handler dropped where it awaits it, leave the job as it is.
  | .decoding _ job, .rejected message =>
      some (server.change job (·.fail message), { thread with point := .ended })
  | .decoding _ _, .panicked => some (server, { thread with point := .ended })
  | .decoding _ _, .disconnect => some (server, { thread with point := .ended })
  | .submitting via request job, .plain =>
      match server.queue.submit ⟨job, request, setting.output request⟩ with
      | .ok (position, queue) => some (
          { server.change job (·.setProgress (Queue.queuedProgress position (position + 1))) with
            queue := queue },
          { thread with point := via.queued job })
      -- `enqueue` fails the job it cannot queue; the `?` in `drops::separate` does not.
      | .error full => match via with
          | .upload => some (server.change job (·.fail (queueFull full.depth)),
              { thread with point := .ended })
          | .drop => some (server, { thread with point := .ended })
  -- `claim` has already counted this drop.
  | .joining job, .plain => some (server.change job (·.join), { thread with point := .polling job })
  | .polling job, .plain =>
      if (server.store.job job).isTerminal then some (server, { thread with point := .ended })
      else none
  | .finding job client, .plain =>
      if server.store.get job then some (server, { thread with point := .releasing job client })
      else some (server, { thread with point := .ended })
  -- `release`, `cancel` and `remove` each take a lock of their own.
  | .releasing job client, .plain =>
      let released := (server.change job (·.release)).release client
      if (released.store.job job).waiters > 0 then some (released, { thread with point := .ended })
      else some (released, { thread with point := .calling (.cancelPending job) (.remove job) })
  | .calling call after, .plain => (call.advance false server.queue).map fun (queue, call) =>
      ({ server with queue := queue }, { thread with point := resume call after })
  | .calling call after, .late => (call.advance true server.queue).map fun (queue, call) =>
      ({ server with queue := queue }, { thread with point := resume call after })
  | .removing job, .plain =>
      some ({ server with store := server.store.remove job }, { thread with point := .ended })
  -- `busy` and `current` are read under two locks, and the switch starts under neither.
  | .requesting preset, .plain =>
      some (server, { thread with
        point := if server.switch.busy then .ended else .comparing preset })
  | .comparing preset, .plain =>
      some (server, { thread with
        point := if server.current = preset then .ended else .fetching preset })
  | .fetching preset, .plain =>
      some ({ server with switch := .verifying preset }, { thread with point := .staging preset })
  | .fetching preset, .download =>
      some ({ server with switch := .downloading preset }, { thread with point := .staging preset })
  | .fetching preset, .unavailable => some (server, { thread with point := .failing preset })
  | .staging preset, .plain => some ({ server with switch := .loading preset },
      { thread with point := .calling (.stage preset) (.record preset) })
  | .staging preset, .unavailable => some (server, { thread with point := .failing preset })
  -- The worker has been running the new model since it answered.
  | .recording preset, .plain =>
      some ({ server with current := preset }, { thread with point := .settling preset })
  | .settling _, .plain => some ({ server with switch := .idle }, { thread with point := .ended })
  | .failing preset, .plain =>
      some ({ server with switch := .failed preset }, { thread with point := .ended })
  | _, _ => none

omit [DecidableEq Sep] in
/-- `worker_loop` and what it calls. -/
def work (server : AppState R Sep) : WorkerEvent → Option (AppState R Sep)
  | .next => (server.queue.step .next).map fun queue =>
      { server with queue := queue, phase := .separating }
  | .built outcome => (server.queue.step (.built outcome)).map fun queue =>
      { server with queue := queue }
  | .answered => (server.queue.step .answered).map fun queue => { server with queue := queue }
  -- The progress sink only ever reports stages of a separation under way.
  | .report progress => match server.queue.worker, server.phase with
      | .separating claimed, .separating =>
          if progress.stage.isTerminal then none
          else some (server.change claimed.work.job (·.setProgress progress))
      | _, _ => none
  | .separated => match server.queue.worker, server.phase with
      | .separating claimed, .separating =>
          some { server.change claimed.work.job (·.setProgress (.new .writing)) with
            phase := .writing }
      | _, _ => none
  -- A separator gives up only where it has seen the flag.
  | .cancelled => match server.queue.worker, server.phase with
      | .separating claimed, .separating =>
          if server.queue.flags[claimed.cancel]? = some true then
            some { server.change claimed.work.job (·.cancelled) with phase := .settled }
          else none
      | _, _ => none
  | .failed message => match server.queue.worker, server.phase with
      | .separating claimed, .separating =>
          some { server.change claimed.work.job (·.fail message) with phase := .settled }
      | _, _ => none
  -- `catch_unwind` is around all of `separate_one`.
  | .panicked what => match server.queue.worker, server.phase with
      | .separating claimed, .separating | .separating claimed, .writing =>
          some { server.change claimed.work.job
              (·.fail ("the separation panicked: " ++ what)) with
            phase := .settled }
      | _, _ => none
  -- `publish` inserts the entry first and completes the job after.
  | .written => match server.queue.worker, server.phase with
      | .separating claimed, .writing =>
          let (entry, cache) :=
            server.cache.publish (server.store.job claimed.work.job).key server.queue.separator
          some { server with cache := cache, phase := .published entry }
      | _, _ => none
  | .unwritten message => match server.queue.worker, server.phase with
      | .separating claimed, .writing =>
          some { server.change claimed.work.job (·.fail ("writing stems: " ++ message)) with
            phase := .settled }
      | _, _ => none
  | .completed => match server.queue.worker, server.phase with
      | .separating claimed, .published entry =>
          some { server.change claimed.work.job
              (·.complete claimed.work.job entry false) with
            phase := .settled }
      | _, _ => none
  -- The running slot is cleared last, and in any case.
  | .cleared => match server.phase with
      | .settled => (server.queue.step .finished).map fun queue =>
          { server with queue := queue, phase := .separating }
      | _ => none

omit [DecidableEq Sep] in
def spawn (server : AppState R Sep) (point : Point R Sep) : AppState R Sep :=
  { server with threads := server.threads ++ [⟨point, none, false⟩] }

def step (setting : Setting R Sep) (server : AppState R Sep) : Event R Sep → Option (AppState R Sep)
  | .arrive via request => some (server.spawn (.arriving via request))
  | .delete job client => some (server.spawn (.finding job client))
  | .request preset => some (server.spawn (.requesting preset))
  | .exit => some (server.spawn (.calling .shut .exit))
  | .advance index choice => do
      let thread ← server.threads[index]?
      let (after, thread) ← server.act setting thread choice
      some { after with threads := after.threads.set index thread }
  | .worker event => server.work event
  | .evict key => some { server with cache := server.cache.evict key }
  | .prune => some { server with store := server.store.prune server.cache.isEvicted server.clock }
  | .tick => some { server with clock := server.clock + 1 }

def system (setting : Setting R Sep) (model : Sep) (maxDepth retainFailed : Nat) :
    System (AppState R Sep) (Event R Sep) :=
  ⟨start model maxDepth retainFailed, step setting⟩

end AppState

def trackSetting : Setting Unit String where
  key := fun _ name => name
  identity := fun model => model
  output := fun _ => ⟨.flac, .hz44100, true, .general⟩
  names := fun _ _ _ _ same => same

def upload (thread : Nat) : List (Event Unit String) :=
  .arrive .upload () :: List.replicate 5 (.advance thread .plain)

def separation : List (Event Unit String) :=
  [.worker .next, .worker .separated, .worker .written, .worker .completed, .worker .cleared]

end Stemd.Server
