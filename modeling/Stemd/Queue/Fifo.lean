import Std.Data.String.ToNat
import Stemd.Queue.Calls

/-! What the queue promises about jobs, over whole runs.

Everything holds for every depth except one report: a position is counted in 32 bits
on its way to a client, while the depth is not. -/

set_option autoImplicit false

namespace Stemd.Queue

open Stemd.Core
open Stemd.Semantics

variable {Id Mix Sep : Type} [DecidableEq Id]

structure Orderly (maxDepth : Nat) (inner : Inner Id Mix Sep) : Prop where
  exactlyOne : ∀ id ∈ inner.history.accepted, ∃! place, inner.ledger.At id place
  nowhereElse : ∀ id place, inner.ledger.At id place → id ∈ inner.history.accepted
  oneRunning : ∀ id, inner.ledger.At id .running ↔
    ∃ claimed, inner.worker = .separating claimed ∧ claimed.work.job = id
  inOrder : inner.history.taken ++ inner.waiting =
    inner.history.accepted.filter (· ∉ inner.history.removed)
  bounded : inner.pending.length ≤ maxDepth
  refuses : ∀ work, (∃ full, inner.submit work = .error full) ↔ inner.pending.length = maxDepth
  unchanged : ∀ work full, inner.submit work = .error full →
    inner.step (.submit work) = some inner
  position : ∀ work position after, inner.submit work = .ok (position, after) →
    position = inner.waiting.length ∧ after.waiting = inner.waiting ++ [work.job]
  reported : ∀ id ∈ inner.waiting, ∃ progress, inner.queuedProgressFor id = some progress ∧
    progress.completed.toNat = inner.waiting.idxOf id ∧
    progress.detail = some (if inner.waiting.idxOf id = 0 then "next"
      else s!"{inner.waiting.idxOf id} ahead")

theorem queuedProgressFor_eq {inner : Inner Id Mix Sep} {id : Id} (waits : id ∈ inner.waiting) :
    inner.queuedProgressFor id =
      some (queuedProgress (inner.waiting.idxOf id) inner.pending.length) := by
  have inside : inner.waiting.idxOf id < inner.pending.length := by
    simpa [Inner.waiting] using List.idxOf_lt_length_of_mem waits
  have index : inner.pending.findIdx (fun w => w.job = id) = inner.waiting.idxOf id := by
    rw [Inner.waiting, List.idxOf, List.findIdx_map]
    rfl
  rw [Inner.queuedProgressFor, List.findIdx?_eq_guard_findIdx_lt, index, Option.guard,
    if_pos (by simpa using inside)]
  rfl

theorem queuedProgressFor_none {inner : Inner Id Mix Sep} {id : Id} (gone : id ∉ inner.waiting) :
    inner.queuedProgressFor id = none := by
  rw [Inner.queuedProgressFor, Option.map_eq_none_iff, List.findIdx?_eq_none_iff]
  intro work member
  have different : work.job ≠ id := fun same => gone (same ▸ List.mem_map_of_mem member)
  simpa using different

omit [DecidableEq Id] in
theorem submit_refuses_iff {inner : Inner Id Mix Sep} (work : QueuedWork Id Mix)
    (bounded : inner.pending.length ≤ inner.maxDepth) :
    (∃ full, inner.submit work = .error full) ↔ inner.pending.length = inner.maxDepth := by
  constructor
  · rintro ⟨full, refused⟩
    exact Nat.le_antisymm bounded (Inner.submit_error refused).1
  · intro full
    exact ⟨⟨inner.pending.length⟩, if_pos (Nat.le_of_eq full.symm)⟩

omit [DecidableEq Id] in
theorem submit_position {inner after : Inner Id Mix Sep} {work : QueuedWork Id Mix}
    {position : Nat} (done : inner.submit work = .ok (position, after)) :
    position = inner.waiting.length ∧ after.waiting = inner.waiting ++ [work.job] := by
  obtain ⟨-, position, -⟩ := Inner.submit_ok done
  refine ⟨?_, congrArg Ledger.waiting (Inner.submit_ledger done)⟩
  rw [position, Inner.waiting, List.length_map]

theorem orderly_of_reaches {model : Sep} {maxDepth : Nat} {inner : Inner Id Mix Sep}
    (run : (innerSystem model maxDepth).Reaches Inner.SubmitsOnce (.start model maxDepth) inner)
    (counted : maxDepth ≤ 2 ^ 32) : Orderly maxDepth inner := by
  have sound := Inner.sound_of_reaches run
  have served := Inner.served_of_reaches run
  obtain ⟨depth, bounded⟩ := Inner.depth_of_reaches run
  refine ⟨fun id member => sound.exactly_one member, fun id place here => sound.at_accepted here,
    fun id => ?_, served.taken ▸ sound.order, bounded, fun work => ?_, fun work full refused => ?_,
    fun work position after done => submit_position done, fun id waits => ?_⟩
  · constructor
    · intro here
      obtain ⟨running, busy, rfl⟩ := Option.map_eq_some_iff.mp here
      by_cases separating : ∃ claimed, inner.worker = .separating claimed
      · obtain ⟨claimed, separating⟩ := separating
        refine ⟨claimed, separating, ?_⟩
        rw [served.slot claimed separating] at busy
        exact congrArg Running.id (Option.some.inj busy)
      · rw [served.idle fun claimed is => separating ⟨claimed, is⟩] at busy
        cases busy
    · rintro ⟨claimed, separating, rfl⟩
      exact congrArg (Option.map _) (served.slot claimed separating)
  · exact depth ▸ submit_refuses_iff work (depth.symm ▸ bounded)
  · rw [Inner.step, refused]
  · refine ⟨_, queuedProgressFor_eq waits, ?_, rfl⟩
    have inside : inner.waiting.idxOf id < inner.pending.length := by
      simpa [Inner.waiting] using List.idxOf_lt_length_of_mem waits
    exact UInt32.toNat_ofNat_of_lt' (by simp only [UInt32.size]; omega)

theorem fill (model : Sep) {maxDepth : Nat} (mix : Mix) (output : Output) {job : Nat → Id}
    (distinct : Function.Injective job) (count : Nat) (room : count ≤ maxDepth) :
    ∃ state : State Id Mix Sep,
      (system model maxDepth).Reaches SubmitsOnce (.start model maxDepth) state ∧
        state.inner.waiting = (List.range count).map job ∧
        state.inner.history.accepted = (List.range count).map job := by
  -- The worker never looks, so everything submitted is still there.
  induction count with
  | zero => exact ⟨_, .refl, rfl, rfl⟩
  | succ count ih =>
      obtain ⟨state, run, waiting, accepted⟩ := ih (Nat.le_of_succ_le room)
      have depth := (Inner.depth_of_reaches (inner_reaches_once run)).1
      have length : state.inner.pending.length = count := by
        simpa [Inner.waiting] using congrArg List.length waiting
      let work : QueuedWork Id Mix := ⟨job count, mix, output⟩
      have fresh : work.job ∉ state.inner.history.accepted := by
        rw [accepted]
        intro member
        obtain ⟨earlier, inside, same⟩ := List.mem_map.mp member
        exact absurd (distinct same) (Nat.ne_of_lt (List.mem_range.mp inside))
      let after : Inner Id Mix Sep := Inner.notify { state.inner with
        pending := state.inner.pending ++ [work]
        history := { state.inner.history with
          accepted := state.inner.history.accepted ++ [work.job] } }
      have done : state.inner.submit work = .ok (count, after) := by
        rw [Inner.submit, if_neg (by omega), length]
      have step : state.step (.submit work) = some { state with inner := after } := by
        rw [State.step, Inner.step_submit done]
        rfl
      refine ⟨_, .tail (a := .submit work) run fresh step, ?_, ?_⟩
      · rw [(submit_position done).2, waiting, List.range_succ, List.map_append]
        rfl
      · have more : after.history.accepted = state.inner.history.accepted ++ [work.job] :=
          congrArg Ledger.accepted (Inner.submit_ledger done)
        rw [more, accepted, List.range_succ, List.map_append]
        rfl

/-- A queue deeper than 32 bits tells the job behind `2 ^ 32` others that it is next. -/
theorem overflowing_position (model : Sep) {maxDepth : Nat} (mix : Mix) (output : Output)
    (deep : 2 ^ 32 < maxDepth) :
    ∃ state : State String Mix Sep,
      (system model maxDepth).Reaches SubmitsOnce (.start model maxDepth) state ∧
        ∃ id ∈ state.inner.waiting, state.inner.waiting.idxOf id = 2 ^ 32 ∧
          ∀ progress, state.inner.queuedProgressFor id = some progress →
            progress.completed = 0 := by
  have distinct : Function.Injective (fun n : Nat => toString n) :=
    fun _ _ same => Nat.repr_injective (by simpa only [Nat.toString_eq_repr] using same)
  obtain ⟨state, run, waiting, -⟩ := fill model mix output distinct (2 ^ 32 + 1) deep
  have inside : toString (2 ^ 32) ∈ state.inner.waiting := by
    rw [waiting]
    exact List.mem_map_of_mem (List.mem_range.mpr (Nat.lt_succ_self _))
  have ahead : state.inner.waiting.idxOf (toString (2 ^ 32)) = 2 ^ 32 := by
    have length : 2 ^ 32 < ((List.range (2 ^ 32 + 1)).map fun n => toString n).length := by
      rw [List.length_map, List.length_range]
      exact Nat.lt_succ_self _
    have here : ((List.range (2 ^ 32 + 1)).map fun n => toString n)[2 ^ 32] =
        toString (2 ^ 32) := by
      rw [List.getElem_map, List.getElem_range]
    rw [waiting, ← here]
    exact (List.nodup_range.map distinct).idxOf_getElem _ _
  refine ⟨state, run, _, inside, ahead, fun progress reported => ?_⟩
  rw [queuedProgressFor_eq inside, ahead] at reported
  rw [← Option.some.inj reported]
  rfl

theorem not_orderly_of_deep [Inhabited Mix] (model : Sep) {maxDepth : Nat}
    (deep : 2 ^ 32 < maxDepth) :
    ¬ ∀ state : State String Mix Sep,
      (system model maxDepth).Reaches SubmitsOnce (.start model maxDepth) state →
        Orderly maxDepth state.inner := by
  intro orderly
  obtain ⟨state, run, id, waits, ahead, wrapped⟩ := overflowing_position model
    (default : Mix) ⟨.flac, .hz44100, true, .general⟩ deep
  obtain ⟨progress, reported, counted, -⟩ := (orderly state run).reported id waits
  rw [wrapped progress reported, ahead] at counted
  exact absurd counted (by decide)

/-- Jobs are neither lost, duplicated nor reordered, and positions are true, exactly for
depths that positions are counted in. -/
theorem orderly_iff [Inhabited Mix] (model : Sep) (maxDepth : Nat) :
    (∀ state : State String Mix Sep,
      (system model maxDepth).Reaches SubmitsOnce (.start model maxDepth) state →
        Orderly maxDepth state.inner) ↔ maxDepth ≤ 2 ^ 32 := by
  constructor
  · intro orderly
    by_contra deep
    exact not_orderly_of_deep model (Nat.lt_of_not_le deep) orderly
  · exact fun counted state run => orderly_of_reaches (inner_reaches_once run) counted

theorem misreported_at_depth_4294967297 :
    ¬ ∀ state : State String Unit String,
      (system "htdemucs" 4294967297).Reaches SubmitsOnce (.start "htdemucs" 4294967297) state →
        Orderly 4294967297 state.inner :=
  not_orderly_of_deep "htdemucs" (by decide)

end Stemd.Queue
