import Mathlib.Data.List.Basic
import Mathlib.Logic.Function.Basic
import Std.Data.String.ToNat
import Stemd.Core.Progress
import Stemd.Semantics.Framing

/-! Jobs and the store that finds them.

A job is shared by everyone who holds it, so it lives in a heap of its own and the
store's two maps name it by the number of the attempt that made it. `jobId` is the
text clients know it by. -/

set_option autoImplicit false

namespace Stemd.Server

open Stemd.Core

def shortKey : Nat := 12

def short (key : String) : String := String.ofList (key.toList.take shortKey)

def jobId (key : String) (attempt : Nat) : String := short key ++ "-" ++ toString attempt

/-- What a client reads of a finished job: which entry, under which job's links, and
whether anything was separated for it. -/
structure JobResult where
  entry : Nat
  job : Nat
  cached : Bool
  deriving DecidableEq, Repr

structure Job (K : Type) where
  key : K
  progress : Progress
  result : Option JobResult
  error : Option String
  entry : Option Nat
  waiters : Nat
  created : Nat

namespace Job

variable {K : Type}

def fresh (key : K) (now : Nat) : Job K where
  key := key
  progress := .new .queued
  result := none
  error := none
  entry := none
  waiters := 1
  created := now

def isTerminal (job : Job K) : Bool := job.progress.stage.isTerminal

def join (job : Job K) : Job K := { job with waiters := job.waiters + 1 }

/-- Saturates at zero. -/
def release (job : Job K) : Job K := { job with waiters := job.waiters - 1 }

def setProgress (job : Job K) (progress : Progress) : Job K := { job with progress := progress }

def complete (job : Job K) (id entry : Nat) (cached : Bool) : Job K :=
  { job with
    entry := some entry
    result := some ⟨entry, id, cached⟩
    progress := .new .done }

def cancelled (job : Job K) : Job K := job.setProgress (.new .cancelled)

def fail (job : Job K) (message : String) : Job K :=
  { job with
    error := some message
    progress := .new .failed }

@[simp] theorem fresh_isTerminal (key : K) (now : Nat) : (fresh key now).isTerminal = false := rfl

@[simp] theorem join_isTerminal (job : Job K) : job.join.isTerminal = job.isTerminal := rfl

@[simp] theorem release_isTerminal (job : Job K) : job.release.isTerminal = job.isTerminal := rfl

@[simp] theorem setProgress_isTerminal (job : Job K) (progress : Progress) :
    (job.setProgress progress).isTerminal = progress.stage.isTerminal := rfl

@[simp] theorem complete_isTerminal (job : Job K) (id entry : Nat) (cached : Bool) :
    (job.complete id entry cached).isTerminal = true := rfl

@[simp] theorem cancelled_isTerminal (job : Job K) : job.cancelled.isTerminal = true := rfl

@[simp] theorem fail_isTerminal (job : Job K) (message : String) :
    (job.fail message).isTerminal = true := rfl

end Job

structure JobStore (K : Type) where
  job : Nat → Job K
  attempts : Nat
  byId : List Nat
  byKey : K → Option Nat
  retainFailed : Nat

namespace JobStore

variable {K : Type} [DecidableEq K]

def new [Inhabited K] (retainFailed : Nat) : JobStore K where
  job := fun _ => .fresh default 0
  attempts := 1
  byId := []
  byKey := fun _ => none
  retainFailed := retainFailed

omit [DecidableEq K] in
def update (store : JobStore K) (id : Nat) (change : Job K → Job K) : JobStore K :=
  { store with job := Function.update store.job id (change (store.job id)) }

def get (store : JobStore K) (id : Nat) : Bool := decide (id ∈ store.byId)

/-- The live job for `key`, if one is still working towards it. -/
def inFlight (store : JobStore K) (key : K) : Option Nat :=
  (store.byKey key).filter fun id => store.get id && !(store.job id).isTerminal

/-- `Ok` is a fresh job the caller owns, `Err` one it has been added to. -/
def claim (store : JobStore K) (key : K) (now : Nat) : Except Nat Nat × JobStore K :=
  match store.inFlight key with
  | some id => (.error id, store.update id .join)
  | none => (.ok store.attempts, { store with
      job := Function.update store.job store.attempts (.fresh key now)
      attempts := store.attempts + 1
      byId := store.attempts :: store.byId
      byKey := Function.update store.byKey key (some store.attempts) })

def remove (store : JobStore K) (id : Nat) : JobStore K :=
  if store.get id then { store with
    byId := store.byId.filter (· ≠ id)
    byKey := if store.byKey (store.job id).key = some id then
        Function.update store.byKey (store.job id).key none
      else store.byKey }
  else store

/-- A handle that can no longer serve anyone: its stems were evicted, or it never had any
and its failure has been readable long enough. -/
def stale (store : JobStore K) (evicted : Nat → Bool) (now : Nat) (id : Nat) : Bool :=
  (store.job id).isTerminal &&
    match (store.job id).entry with
    | some entry => evicted entry
    | none => decide (store.retainFailed < now - (store.job id).created)

def prune (store : JobStore K) (evicted : Nat → Bool) (now : Nat) : JobStore K :=
  (store.byId.filter (store.stale evicted now)).foldl remove store

omit [DecidableEq K] in
@[simp] theorem update_job (store : JobStore K) (id : Nat) (change : Job K → Job K) (other : Nat) :
    (store.update id change).job other =
      if other = id then change (store.job id) else store.job other :=
  Function.update_apply ..

omit [DecidableEq K] in
theorem inFlight_eq_some {store : JobStore K} {key : K} {id : Nat} :
    store.inFlight key = some id ↔
      store.byKey key = some id ∧ id ∈ store.byId ∧ (store.job id).isTerminal = false := by
  simp [inFlight, get, Option.filter_eq_some_iff]

theorem claim_found {store : JobStore K} {key : K} {id : Nat} (now : Nat)
    (found : store.inFlight key = some id) :
    store.claim key now = (.error id, store.update id .join) := by
  rw [claim, found]

theorem claim_free {store : JobStore K} {key : K} (now : Nat) (free : store.inFlight key = none) :
    store.claim key now = (.ok store.attempts, { store with
      job := Function.update store.job store.attempts (.fresh key now)
      attempts := store.attempts + 1
      byId := store.attempts :: store.byId
      byKey := Function.update store.byKey key (some store.attempts) }) := by
  rw [claim, free]

theorem claim_error {store after : JobStore K} {key : K} {now id : Nat}
    (joined : store.claim key now = (.error id, after)) :
    store.inFlight key = some id ∧ after = store.update id .join := by
  unfold claim at joined
  split at joined
  · rename_i found
    cases joined
    exact ⟨found, rfl⟩
  · cases joined

theorem claim_ok {store after : JobStore K} {key : K} {now id : Nat}
    (owned : store.claim key now = (.ok id, after)) :
    store.inFlight key = none ∧ id = store.attempts ∧ after = { store with
      job := Function.update store.job store.attempts (.fresh key now)
      attempts := store.attempts + 1
      byId := store.attempts :: store.byId
      byKey := Function.update store.byKey key (some store.attempts) } := by
  unfold claim at owned
  split at owned
  · cases owned
  · rename_i none
    cases owned
    exact ⟨none, rfl, rfl⟩

structure Unregisters (store after : JobStore K) : Prop where
  job : after.job = store.job
  attempts : after.attempts = store.attempts
  byId : ∀ id ∈ after.byId, id ∈ store.byId
  byKey : ∀ key id, after.byKey key = some id → store.byKey key = some id

omit [DecidableEq K] in
theorem Unregisters.refl (store : JobStore K) : Unregisters store store :=
  ⟨rfl, rfl, fun _ member => member, fun _ _ held => held⟩

omit [DecidableEq K] in
theorem Unregisters.trans {first second third : JobStore K} (before : Unregisters first second)
    (after : Unregisters second third) : Unregisters first third :=
  ⟨after.job.trans before.job, after.attempts.trans before.attempts,
    fun id member => before.byId id (after.byId id member),
    fun key id held => before.byKey key id (after.byKey key id held)⟩

theorem remove_unregisters (store : JobStore K) (id : Nat) :
    Unregisters store (store.remove id) := by
  unfold remove
  split
  · refine ⟨rfl, rfl, fun _ member => (List.mem_filter.mp member).1, fun key held => ?_⟩
    split
    · intro kept
      by_cases own : key = (store.job id).key
      · simp [own] at kept
      · simpa [own] using kept
    · exact fun kept => kept
  · exact .refl store

theorem remove_byId (store : JobStore K) (id other : Nat) :
    other ∈ (store.remove id).byId ↔ other ∈ store.byId ∧ other ≠ id := by
  unfold remove
  split
  · simp
  · rename_i absent
    refine ⟨fun member => ⟨member, ?_⟩, And.left⟩
    rintro rfl
    exact absent (by simpa [get] using member)

theorem remove_byKey {store : JobStore K} {id other : Nat} {key : K}
    (held : store.byKey key = some other) (different : other ≠ id) :
    (store.remove id).byKey key = some other := by
  unfold remove
  split
  · split
    · rename_i own
      have apart : key ≠ (store.job id).key := by
        rintro rfl
        exact different (Option.some.inj (held.symm.trans own))
      simpa [apart] using held
    · exact held
  · exact held

theorem foldl_remove_unregisters (ids : List Nat) (store : JobStore K) :
    Unregisters store (ids.foldl remove store) := by
  induction ids generalizing store with
  | nil => exact .refl store
  | cons id rest ih => exact (remove_unregisters store id).trans (ih _)

theorem foldl_remove_keeps {ids : List Nat} {store : JobStore K} {other : Nat}
    (spared : other ∉ ids) :
    (other ∈ (ids.foldl remove store).byId ↔ other ∈ store.byId) ∧
      ∀ key, store.byKey key = some other → (ids.foldl remove store).byKey key = some other := by
  induction ids generalizing store with
  | nil => exact ⟨Iff.rfl, fun _ held => held⟩
  | cons id rest ih =>
      obtain ⟨apart, spared⟩ := not_or.mp (List.mem_cons.not.mp spared)
      obtain ⟨members, keys⟩ := @ih (store.remove id) spared
      exact ⟨members.trans ((remove_byId store id other).trans (and_iff_left apart)),
        fun key held => keys key (remove_byKey held apart)⟩

theorem prune_unregisters (store : JobStore K) (evicted : Nat → Bool) (now : Nat) :
    Unregisters store (store.prune evicted now) :=
  foldl_remove_unregisters _ store

theorem prune_keeps {store : JobStore K} {evicted : Nat → Bool} {now id : Nat}
    (wanted : store.stale evicted now id = false) :
    (id ∈ (store.prune evicted now).byId ↔ id ∈ store.byId) ∧
      ∀ key, store.byKey key = some id → (store.prune evicted now).byKey key = some id :=
  foldl_remove_keeps fun member => by
    rw [(List.mem_filter.mp member).2] at wanted
    cases wanted

omit [DecidableEq K] in
theorem prune_keeps_live {store : JobStore K} {evicted : Nat → Bool} {now id : Nat}
    (live : (store.job id).isTerminal = false) : store.stale evicted now id = false := by
  simp [stale, live]

end JobStore

theorem nat_toString_no_hyphen (n : Nat) : '-' ∉ (toString n).toList := by
  intro member
  have digit : ('-' : Char).isDigit := by
    rw [Nat.toString_eq_repr, Nat.repr_eq_ofList_toDigits, String.toList_ofList] at member
    exact Nat.isDigit_of_mem_toDigits (by decide) (by decide) member
  exact absurd digit (by decide)

theorem jobId_attempt {key key' : String} {attempt attempt' : Nat}
    (same : jobId key attempt = jobId key' attempt') : attempt = attempt' := by
  have chars := congrArg String.toList same
  simp only [jobId, String.toList_append, List.append_assoc] at chars
  obtain ⟨-, digits⟩ := Semantics.Framing.split_at_last (nat_toString_no_hyphen attempt)
    (nat_toString_no_hyphen attempt') chars
  have texts : toString attempt = toString attempt' := String.toList_inj.mp digits
  exact Nat.repr_injective (by simpa only [Nat.toString_eq_repr] using texts)

end Stemd.Server
