import Mathlib.Data.List.Sort
import Mathlib.Logic.Function.Basic
import Stemd.Semantics.Disk
import Stemd.Semantics.Transition

/-! The stem cache: what is on disk, the index, and those who work on them.

One publish is under way at a time. Whoever holds the lock on the index, to apply the
rules or to clear, is the sweep. Hits look under that lock and check the files without
it, and stem fetches take neither. Iteration over the index has no order of its own, so
an order is part of the event that begins one. -/

set_option autoImplicit false

namespace Stemd.Store

open Stemd.Semantics
open Stemd.Semantics.Framing

inductive Dir (Key : Type) where
  | entry (key : Key)
  | part (key : Key) (seq : Nat)
  deriving DecidableEq

structure Shipped where
  name : String
  file : String
  content : Bytes
  deriving DecidableEq

structure CachedStem where
  name : String
  file : String
  bytes : Nat
  deriving DecidableEq

def Shipped.cached (stem : Shipped) : CachedStem := ⟨stem.name, stem.file, stem.content.length⟩

structure Entry (Key : Type) where
  key : Key
  stems : List CachedStem
  bytes : Nat
  evicted : Bool
  unfetched : List String
  lastUsed : Nat

namespace Entry

variable {Key : Type}

def consumed (entry : Entry Key) : Bool := entry.unfetched.isEmpty

def touch (now : Nat) (entry : Entry Key) : Entry Key := { entry with lastUsed := now }

def markFetched (name : String) (now : Nat) (entry : Entry Key) : Entry Key :=
  { entry with unfetched := entry.unfetched.filter (· ≠ name), lastUsed := now }

def evict (entry : Entry Key) : Entry Key := { entry with evicted := true }

end Entry

/-- Where a publish stands; each is about to do what it is named after. -/
inductive Publishing (Key : Type) where
  | idle
  | converting (key : Key) (shipped : List Shipped)
  | creating (key : Key) (shipped : List Shipped)
  /-- One thread a stem; `todo` are those at work and `failed` whether one has not made it. -/
  | writing (key : Key) (seq : Nat) (shipped todo : List Shipped) (failed : Bool)
  | installing (key : Key) (seq : Nat) (shipped : List Shipped)
  | replacing (key : Key) (seq : Nat) (shipped : List Shipped)
  | renaming (key : Key) (seq : Nat) (shipped : List Shipped)
  | building (key : Key) (shipped : List Shipped)
  | inserting (entry : Nat)
  | capping (entry : Nat)
  | failed (key : Key)
  deriving DecidableEq

/-- What a sweep goes on with once a directory is gone. -/
inductive Rest where
  | ageing (now : Nat) (todo : List Nat)
  | rotating (read : List (Nat × Nat)) (victims : List Nat) (total : Nat)
  | clearing (todo : List Nat)
  deriving DecidableEq

inductive Sweep where
  | free
  /-- Rule 1: whose last use is read next. -/
  | ageing (now : Nat) (todo : List Nat)
  | weighing (now idle entry : Nat) (todo : List Nat)
  | condemned (now entry : Nat) (todo : List Nat)
  /-- Rule 2: the last uses read so far, each with its entry. -/
  | reading (todo : List Nat) (read : List (Nat × Nat))
  | rotating (read : List (Nat × Nat)) (victims : List Nat) (total : Nat)
  | clearing (todo : List Nat)
  | removing (entry : Nat) (rest : Rest)
  /-- A hit, with the reading of the clock that it is about to leave. -/
  | touching (caller entry now : Nat)
  deriving DecidableEq

/-- Where the sweep goes on, once it is done with a directory, with the index it then has. Rule 1
drops its entry only now: that is how `retain` does it. -/
def Rest.resumes (entries : List Nat) (entry : Nat) : Rest → List Nat × Sweep
  | .ageing now todo => (entries.filter (· ≠ entry), .ageing now todo)
  | .rotating read victims total => (entries, .rotating read victims total)
  | .clearing todo => (entries, .clearing todo)

inductive Getting (Key : Type) where
  | looking (key : Key)
  | touching
  | checking (entry : Nat) (todo : List CachedStem)
  | missing (entry : Nat)
  | returned (found : Option Nat)
  deriving DecidableEq

structure Cache (Key : Type) where
  maxBytes : Nat
  unfetchedTtl : Nat
  disk : Disk (Dir Key)
  heap : Nat → Entry Key
  made : Nat
  entries : List Nat
  seq : Nat
  clock : Nat
  publishing : Publishing Key
  sweep : Sweep
  getting : List (Getting Key)

inductive PublishStep where
  | converted
  | created
  | wrote (thread : Nat)
  /-- Not finite, not encoded, or not written; a write may leave something. -/
  | spoiled (thread : Nat) (left : Option Bytes)
  | joined
  | looked
  | unlinked (name : String)
  | emptied
  | renamed
  | built
  | inserted (order : List Nat)
  | failed
  deriving DecidableEq

inductive SweepStep where
  | read
  | weighed
  | marked
  | unlinked (name : String)
  | removed
  | failed
  | aged (order : List Nat)
  | sorted
  | rotated
  | cleared

inductive Event (Key : Type) where
  | publish (key : Key) (shipped : List Shipped)
  | publisher (step : PublishStep)
  | reap (order : List Nat)
  | clear (order : List Nat)
  | sweeper (step : SweepStep)
  | get (key : Key)
  | getter (caller : Nat)
  /-- A stem has been opened, and is recorded as fetched. -/
  | fetch (entry : Nat) (name : String)
  | tick

namespace Cache

variable {Key : Type}

def new [Inhabited Key] (maxBytes unfetchedTtl : Nat) : Cache Key where
  maxBytes := maxBytes
  unfetchedTtl := unfetchedTtl
  disk := .empty
  heap := fun _ => ⟨default, [], 0, false, [], 0⟩
  made := 0
  entries := []
  seq := 0
  clock := 0
  publishing := .idle
  sweep := .free
  getting := []

def change (cache : Cache Key) (entry : Nat) (change : Entry Key → Entry Key) : Cache Key :=
  { cache with heap := Function.update cache.heap entry (change (cache.heap entry)) }

def bytes (cache : Cache Key) (entries : List Nat) : Nat :=
  (entries.map fun entry => (cache.heap entry).bytes).sum

def totalBytes (cache : Cache Key) : Nat := cache.bytes cache.entries

def underPressure (cache : Cache Key) : Bool := cache.totalBytes > cache.maxBytes / 2

/-- The lock on the index is let go; a publish that held it returns. -/
def release (cache : Cache Key) : Cache Key :=
  { cache with
    sweep := .free
    publishing := match cache.publishing with
      | .capping _ => .idle
      | publishing => publishing }

def enforceCap (cache : Cache Key) (order : List Nat) : Cache Key :=
  if cache.totalBytes ≤ cache.maxBytes then cache.release
  else { cache with sweep := .reading order [] }

/-- By last use, those read first first among equals, and the last one spared. The source
keeps keys, each of which is one entry's under the lock. -/
def victims (read : List (Nat × Nat)) : List Nat :=
  ((read.insertionSort (·.1 ≤ ·.1)).dropLast).map (·.2)

variable [DecidableEq Key]

def lookup (cache : Cache Key) (key : Key) : Option Nat :=
  cache.entries.find? fun entry => (cache.heap entry).key = key

def Iterates (cache : Cache Key) (order : List Nat) : Prop := order.Perm cache.entries

instance (cache : Cache Key) (order : List Nat) : Decidable (cache.Iterates order) :=
  inferInstanceAs (Decidable (order.Perm cache.entries))

def present (cache : Cache Key) (entry : Nat) (stem : CachedStem) : Bool :=
  (cache.disk.read (.entry (cache.heap entry).key) stem.file).isSome

/-- `entries.insert`: what the key stood for before is no longer found. -/
def insert (cache : Cache Key) (entry : Nat) : Cache Key :=
  { cache with
    entries := (cache.entries.filter fun old =>
      (cache.heap old).key ≠ (cache.heap entry).key) ++ [entry] }

/-- `Cache::publish`. -/
def publishStep (cache : Cache Key) : PublishStep → Option (Cache Key)
  | .converted => match cache.publishing with
      | .converting key shipped => some { cache with publishing := .creating key shipped }
      | _ => none
  | .created => match cache.publishing with
      | .creating key shipped => some { cache with
          seq := cache.seq + 1
          publishing := .writing key cache.seq shipped shipped false }
      | _ => none
  | .wrote thread => match cache.publishing with
      | .writing key seq shipped todo failed => (todo[thread]?).map fun stem => { cache with
          disk := cache.disk.write (.part key seq) ⟨stem.file, stem.content⟩
          publishing := .writing key seq shipped (todo.eraseIdx thread) failed }
      | _ => none
  | .spoiled thread left => match cache.publishing with
      | .writing key seq shipped todo _ => (todo[thread]?).map fun stem => { cache with
          disk := match left with
            | some content => cache.disk.write (.part key seq) ⟨stem.file, content⟩
            | none => cache.disk
          publishing := .writing key seq shipped (todo.eraseIdx thread) true }
      | _ => none
  -- All threads are joined first. What they have written stays where it is.
  | .joined => match cache.publishing with
      | .writing key seq shipped [] failed => some { cache with
          publishing := if failed then .failed key else .installing key seq shipped }
      | _ => none
  | .looked => match cache.publishing with
      | .installing key seq shipped => some { cache with
          publishing :=
            if cache.disk.has (.entry key) then .replacing key seq shipped
            else .renaming key seq shipped }
      | _ => none
  | .unlinked name => match cache.publishing with
      | .replacing key seq shipped => some { cache with
          disk := cache.disk.unlink (.entry key) name
          publishing := .replacing key seq shipped }
      | _ => none
  | .emptied => match cache.publishing with
      | .replacing key seq shipped =>
          if cache.disk.has (.entry key) then none
          else some { cache with publishing := .renaming key seq shipped }
      | _ => none
  | .renamed => match cache.publishing with
      | .renaming key seq shipped =>
          if cache.disk.has (.entry key) then none
          else some { cache with
            disk := cache.disk.rename (.part key seq) (.entry key)
            publishing := .building key shipped }
      | _ => none
  -- The clock is read here, before the index is locked.
  | .built => match cache.publishing with
      | .building key shipped => some { cache with
          heap := Function.update cache.heap cache.made {
            key := key
            stems := shipped.map Shipped.cached
            bytes := (shipped.map fun stem => stem.content.length).sum
            evicted := false
            unfetched := shipped.map (·.name)
            lastUsed := cache.clock }
          made := cache.made + 1
          publishing := .inserting cache.made }
      | _ => none
  | .inserted order => match cache.publishing, cache.sweep with
      | .inserting entry, .free =>
          let inserted := { cache.insert entry with publishing := .capping entry }
          if inserted.Iterates order then some (inserted.enforceCap order) else none
      | _, _ => none
  | .failed => match cache.publishing with
      | .converting key _ => some { cache with publishing := .failed key }
      | .creating key _ => some { cache with seq := cache.seq + 1, publishing := .failed key }
      | .replacing key _ _ => some { cache with publishing := .failed key }
      | .renaming key _ _ => some { cache with publishing := .failed key }
      | _ => none

/-- `Cache::reap` after the lock is taken, `enforce_cap` wherever it is called, and
`Cache::clear`. -/
def sweepStep (cache : Cache Key) : SweepStep → Option (Cache Key)
  | .read => match cache.sweep with
      | .ageing now (entry :: todo) => some { cache with
          sweep := .weighing now (now - (cache.heap entry).lastUsed) entry todo }
      | .reading (entry :: todo) read => some { cache with
          sweep := .reading todo (read ++ [((cache.heap entry).lastUsed, entry)]) }
      | _ => none
  | .weighed => match cache.sweep with
      | .weighing now idle entry todo => some { cache with
          sweep :=
            if (cache.heap entry).consumed ∨ idle ≤ cache.unfetchedTtl then .ageing now todo
            else .condemned now entry todo }
      | _ => none
  | .marked => match cache.sweep with
      | .condemned now entry todo => some { cache.change entry Entry.evict with
          sweep := .removing entry (.ageing now todo) }
      | .clearing (entry :: todo) => some { cache.change entry Entry.evict with
          sweep := .removing entry (.clearing todo) }
      | _ => none
  | .unlinked name => match cache.sweep with
      | .removing entry _ => some { cache with
          disk := cache.disk.unlink (.entry (cache.heap entry).key) name }
      | _ => none
  | .removed => match cache.sweep with
      | .removing entry rest =>
          if cache.disk.has (.entry (cache.heap entry).key) then none
          else some { cache with
            entries := (rest.resumes cache.entries entry).1
            sweep := (rest.resumes cache.entries entry).2 }
      | _ => none
  -- What cannot be removed stays where it is, and is not tried again.
  | .failed => match cache.sweep with
      | .removing entry rest => some { cache with
          entries := (rest.resumes cache.entries entry).1
          sweep := (rest.resumes cache.entries entry).2 }
      | _ => none
  | .aged order => match cache.sweep with
      | .ageing _ [] => if cache.Iterates order then some (cache.enforceCap order) else none
      | _ => none
  | .sorted => match cache.sweep with
      | .reading [] read => some { cache with
          sweep := .rotating read (victims read) cache.totalBytes }
      | _ => none
  | .rotated => match cache.sweep with
      | .rotating read victims total =>
          if total ≤ cache.maxBytes then some cache.release
          else match victims with
            | [] => some cache.release
            | entry :: victims => some { cache.change entry Entry.evict with
                entries := cache.entries.filter (· ≠ entry)
                sweep := .removing entry
                  (.rotating read victims (total - (cache.heap entry).bytes)) }
      | _ => none
  | .cleared => match cache.sweep with
      | .clearing [] => some { cache with entries := [], sweep := .free }
      | _ => none

/-- `Cache::get`. -/
def getStep (cache : Cache Key) (caller : Nat) : Getting Key → Option (Cache Key × Getting Key)
  | .looking key => match cache.sweep with
      | .free => match cache.lookup key with
          -- In an assignment the clock is read first, and the entry's own lock taken then.
          | some entry =>
              some ({ cache with sweep := .touching caller entry cache.clock }, .touching)
          | none => some (cache, .returned none)
      | _ => none
  | .touching => match cache.sweep with
      | .touching holder entry now =>
          if holder = caller then
            some ({ cache.change entry (·.touch now) with sweep := .free },
              .checking entry (cache.heap entry).stems)
          else none
      | _ => none
  | .checking entry todo => match todo with
      | [] => some (cache, .returned (some entry))
      | stem :: todo =>
          some (cache, if cache.present entry stem then .checking entry todo else .missing entry)
  -- Only if it is still the one that went missing.
  | .missing entry => match cache.sweep with
      | .free =>
          if cache.lookup (cache.heap entry).key = some entry then
            some ({ cache.change entry Entry.evict with
              entries := cache.entries.filter (· ≠ entry) }, .returned none)
          else some (cache, .returned none)
      | _ => none
  | .returned _ => none

def step (cache : Cache Key) : Event Key → Option (Cache Key)
  | .publish key shipped => match cache.publishing with
      | .idle | .failed _ => some { cache with publishing := .converting key shipped }
      | _ => none
  | .publisher step => cache.publishStep step
  | .reap order => match cache.sweep with
      | .free =>
          if cache.Iterates order then
            if cache.underPressure then some { cache with sweep := .ageing cache.clock order }
            else some (cache.enforceCap order)
          else none
      | _ => none
  | .clear order => match cache.sweep with
      | .free => if cache.Iterates order then some { cache with sweep := .clearing order } else none
      | _ => none
  | .sweeper step => cache.sweepStep step
  | .get key => some { cache with getting := cache.getting ++ [.looking key] }
  | .getter caller => do
      let getting ← cache.getting[caller]?
      let (after, next) ← cache.getStep caller getting
      some { after with getting := after.getting.set caller next }
  | .fetch entry name =>
      if entry < cache.made then some (cache.change entry (·.markFetched name cache.clock))
      else none
  | .tick => some { cache with clock := cache.clock + 1 }

def system [Inhabited Key] (maxBytes unfetchedTtl : Nat) : System (Cache Key) (Event Key) :=
  ⟨new maxBytes unfetchedTtl, step⟩

end Cache

end Stemd.Store
