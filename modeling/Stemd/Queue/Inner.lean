import Stemd.Core.Format
import Stemd.Core.Progress
import Stemd.Semantics.Ledger

/-! The state the queue's callers share with its one worker, and every critical
section over it.

Each action is what one thread does while it holds a lock, or one thing the worker
does outside of any. They are enabled in every order here: which order a caller keeps
is the business of `Calls`. -/

set_option autoImplicit false

namespace Stemd.Queue

open Stemd.Core
open Stemd.Semantics

structure QueuedWork (Id Mix : Type) where
  job : Id
  mix : Mix
  output : Output

structure QueueFull where
  depth : Nat
  deriving DecidableEq, Repr

structure Running (Id : Type) where
  id : Id
  cancel : Nat
  deriving DecidableEq

inductive Reply (Sep : Type) where
  | loaded (model : Sep)
  | failed
  | panicked
  | superseded
  | shuttingDown
  deriving DecidableEq

/-- A model waiting to be built, by the separator a successful build gives, and the
channel of the caller waiting to hear how it went. -/
structure Staged (Sep : Type) where
  build : Sep
  reply : Nat
  deriving DecidableEq

structure Claimed (Id Mix : Type) where
  work : QueuedWork Id Mix
  cancel : Nat

inductive Worker (Id Mix Sep : Type) where
  /-- At the head of `Inner::next`. -/
  | looking
  /-- Waiting on `ready`. -/
  | parked
  | building (staged : Staged Sep)
  /-- Built and described in `info`, not yet replied. -/
  | answering (staged : Staged Sep)
  | separating (claimed : Claimed Id Mix)
  /-- Out of the loop: the thread has ended. -/
  | gone

inductive BuildOutcome where
  | loaded
  | failed
  | panicked
  deriving DecidableEq, Repr

/-- What happened, for the statements only: nothing reads it. -/
structure History (Id Sep : Type) where
  accepted : List Id
  taken : List Id
  finished : List Id
  removed : List Id
  models : List Sep

structure Inner (Id Mix Sep : Type) where
  pending : List (QueuedWork Id Mix)
  running : Option (Running Id)
  maxDepth : Nat
  shutdown : Bool
  incoming : Option (Staged Sep)
  info : Sep
  /-- The worker's join handle, until `stop` takes it. -/
  handle : Bool
  flags : List Bool
  channels : List (Option (Reply Sep))
  worker : Worker Id Mix Sep
  separator : Sep
  history : History Id Sep

def queuedProgress (position total : Nat) : Progress :=
  (Progress.counted .queued (UInt32.ofNat position) (UInt32.ofNat total)).withDetail
    (if position = 0 then "next" else s!"{position} ahead")

namespace Inner

variable {Id Mix Sep : Type}

/-- What `Queue::start` returns with: the first model built and described. -/
def start (model : Sep) (maxDepth : Nat) : Inner Id Mix Sep where
  pending := []
  running := none
  maxDepth := maxDepth
  shutdown := false
  incoming := none
  info := model
  handle := true
  flags := []
  channels := []
  worker := .looking
  separator := model
  history := ⟨[], [], [], [], []⟩

@[simp] theorem start_pending (model : Sep) (maxDepth : Nat) :
    (start model maxDepth : Inner Id Mix Sep).pending = [] := rfl

@[simp] theorem start_history (model : Sep) (maxDepth : Nat) :
    (start model maxDepth : Inner Id Mix Sep).history = ⟨[], [], [], [], []⟩ := rfl

/-- `ready.notify_one` and `notify_all`: there is one thread to wake. -/
def notify (inner : Inner Id Mix Sep) : Inner Id Mix Sep :=
  match inner.worker with
  | .parked => { inner with worker := .looking }
  | _ => inner

def submit (inner : Inner Id Mix Sep) (work : QueuedWork Id Mix) :
    Except QueueFull (Nat × Inner Id Mix Sep) :=
  -- The shutdown flag is not looked at.
  if inner.pending.length ≥ inner.maxDepth then .error ⟨inner.pending.length⟩
  else .ok (inner.pending.length, notify { inner with
    pending := inner.pending ++ [work]
    history := { inner.history with accepted := inner.history.accepted ++ [work.job] } })

def send (inner : Inner Id Mix Sep) (channel : Nat) (reply : Reply Sep) : Inner Id Mix Sep :=
  { inner with channels := inner.channels.set channel (some reply) }

def setFlag (inner : Inner Id Mix Sep) (flag : Nat) : Inner Id Mix Sep :=
  { inner with flags := inner.flags.set flag true }

/-- The part of `install` under `pending`: refused after shutdown, else the staged model
takes the place of the one before it. -/
def stage (inner : Inner Id Mix Sep) (build : Sep) :
    Option (Nat × Option (Staged Sep) × Inner Id Mix Sep) :=
  if inner.shutdown then none
  else some (inner.channels.length, inner.incoming, { inner with
    incoming := some ⟨build, inner.channels.length⟩
    channels := inner.channels ++ [none] })

def shut (inner : Inner Id Mix Sep) : Inner Id Mix Sep := { inner with shutdown := true }

def letGo (inner : Inner Id Mix Sep) : Inner Id Mix Sep :=
  match inner.incoming with
  | some staged => send { inner with incoming := none } staged.reply .shuttingDown
  | none => inner

/-- The third: the job in flight is told to stop. -/
def flagRunning (inner : Inner Id Mix Sep) : Inner Id Mix Sep :=
  match inner.running with
  | some running => inner.setFlag running.cancel
  | none => inner

variable [DecidableEq Id]

/-- `pending.retain`, and whether it dropped anything. -/
def cancelPending (inner : Inner Id Mix Sep) (id : Id) : Bool × Inner Id Mix Sep :=
  let kept := inner.pending.filter fun w => w.job ≠ id
  (kept.length ≠ inner.pending.length, { inner with
    pending := kept
    history := { inner.history with
      removed := inner.history.removed ++ (inner.pending.map (·.job)).filter (· = id) } })

def cancelRunning (inner : Inner Id Mix Sep) (id : Id) : Bool × Inner Id Mix Sep :=
  match inner.running with
  | some running => if running.id = id then (true, inner.setFlag running.cancel) else (false, inner)
  | none => (false, inner)

def queuedProgressFor (inner : Inner Id Mix Sep) (id : Id) : Option Progress :=
  (inner.pending.findIdx? fun w => w.job = id).map fun position =>
    queuedProgress position inner.pending.length

omit [DecidableEq Id] in
/-- One look of `Inner::next` at what there is to do. -/
def next (inner : Inner Id Mix Sep) : Inner Id Mix Sep :=
  if inner.shutdown then { inner with worker := .gone }
  -- A staged model is taken ahead of a waiting job.
  else match inner.incoming, inner.pending with
    | some staged, _ => { inner with
        incoming := none
        worker := .building staged
        history := { inner.history with models := inner.history.models ++ [staged.build] } }
    | none, work :: rest => { inner with
        pending := rest
        running := some ⟨work.job, inner.flags.length⟩
        flags := inner.flags ++ [false]
        worker := .separating ⟨work, inner.flags.length⟩
        history := { inner.history with taken := inner.history.taken ++ [work.job] } }
    | none, [] => { inner with worker := .parked }

/-- `build_here`, as far as what it publishes before it replies. -/
def built (inner : Inner Id Mix Sep) (staged : Staged Sep) : BuildOutcome → Inner Id Mix Sep
  | .loaded => { inner with info := staged.build, worker := .answering staged }
  | .failed => send { inner with worker := .looking } staged.reply .failed
  | .panicked => send { inner with worker := .looking } staged.reply .panicked

def answered (inner : Inner Id Mix Sep) (staged : Staged Sep) : Inner Id Mix Sep :=
  send { inner with separator := staged.build, worker := .looking } staged.reply
    (.loaded staged.build)

def finished (inner : Inner Id Mix Sep) (claimed : Claimed Id Mix) : Inner Id Mix Sep :=
  { inner with
    running := none
    worker := .looking
    history := { inner.history with finished := inner.history.finished ++ [claimed.work.job] } }

end Inner

inductive Action (Id Mix Sep : Type) where
  | submit (work : QueuedWork Id Mix)
  | cancelPending (id : Id)
  | cancelRunning (id : Id)
  | stage (build : Sep)
  | send (channel : Nat) (reply : Reply Sep)
  | notify
  | shut
  | letGo
  | flagRunning
  | takeHandle
  | next
  | built (outcome : BuildOutcome)
  | answered
  | finished

def Action.isCallers {Id Mix Sep : Type} : Action Id Mix Sep → Bool
  | .submit _ | .next | .built _ | .answered | .finished => false
  | _ => true

variable {Id Mix Sep : Type} [DecidableEq Id]

def Inner.step (inner : Inner Id Mix Sep) : Action Id Mix Sep → Option (Inner Id Mix Sep)
  | .submit work => match inner.submit work with
      | .ok (_, after) => some after
      | .error _ => some inner
  | .cancelPending id => some (inner.cancelPending id).2
  | .cancelRunning id => some (inner.cancelRunning id).2
  | .stage build => (inner.stage build).map fun staged => staged.2.2
  | .send channel reply => some (inner.send channel reply)
  | .notify => some inner.notify
  | .shut => some inner.shut
  | .letGo => some inner.letGo
  | .flagRunning => some inner.flagRunning
  | .takeHandle => some { inner with handle := false }
  | .next => match inner.worker with
      | .looking => some inner.next
      | _ => none
  | .built outcome => match inner.worker with
      | .building staged => some (inner.built staged outcome)
      | _ => none
  | .answered => match inner.worker with
      | .answering staged => some (inner.answered staged)
      | _ => none
  | .finished => match inner.worker with
      | .separating claimed => some (inner.finished claimed)
      | _ => none

def innerSystem (model : Sep) (maxDepth : Nat) : System (Inner Id Mix Sep) (Action Id Mix Sep) :=
  ⟨.start model maxDepth, Inner.step⟩

end Stemd.Queue
