import Stemd.Queue.Stop

/-! What a call of `cancel` can count on, and which flag it sets.

The flags are numbered by the takes they were made for, so a flag belongs to one job for
good. A job moves from waiting to running under `pending`, which `cancel` lets go of
between its two looks: a job that the first look misses is in the slot at the second, or
past it. -/

set_option autoImplicit false

namespace Stemd.Queue

open Stemd.Core
open Stemd.Semantics

theorem getElem?_of_extends {α : Type} {l l' : List α} {index : Nat} {a : α} (pre : l <+: l')
    (found : l[index]? = some a) : l'[index]? = some a := by
  obtain ⟨rest, rfl⟩ := pre
  rw [List.getElem?_append_left (List.getElem?_eq_some_iff.mp found).1]
  exact found

namespace Inner

variable {Id Mix Sep : Type}

/-- The separation of `id` is under way and looks at this flag at every segment. -/
def Polls (inner : Inner Id Mix Sep) (flag : Nat) (id : Id) : Prop :=
  ∃ claimed, inner.worker = .separating claimed ∧ claimed.cancel = flag ∧ claimed.work.job = id

structure Numbered (inner : Inner Id Mix Sep) : Prop where
  flags : inner.flags.length = inner.history.taken.length
  polls : ∀ flag id, inner.Polls flag id → inner.history.taken[flag]? = some id

structure Extends (before after : Inner Id Mix Sep) : Prop where
  taken : before.history.taken <+: after.history.taken
  accepted : ∀ id ∈ before.history.accepted, id ∈ after.history.accepted
  removed : ∀ id ∈ before.history.removed, id ∈ after.history.removed

theorem Extends.refl (inner : Inner Id Mix Sep) : Extends inner inner :=
  ⟨List.prefix_rfl, fun _ member => member, fun _ member => member⟩

theorem Extends.trans {first second third : Inner Id Mix Sep} (before : Extends first second)
    (after : Extends second third) : Extends first third :=
  ⟨before.taken.trans after.taken, fun id member => after.accepted id (before.accepted id member),
    fun id member => after.removed id (before.removed id member)⟩

variable [DecidableEq Id]

theorem Numbered.step {inner after : Inner Id Mix Sep} {action : Action Id Mix Sep}
    (numbered : inner.Numbered) (served : inner.Served) (done : inner.step action = some after) :
    after.Numbered := by
  have unaccounted : ∀ {inner after : Inner Id Mix Sep}, inner.Numbered →
      Unaccounted inner after → after.Numbered := by
    intro inner after numbered same
    refine ⟨by rw [same.flags, same.taken, numbered.flags], ?_⟩
    rintro flag id ⟨claimed, busy, polls⟩
    rw [same.taken]
    exact numbered.polls flag id ⟨claimed, (same.worker claimed).mp busy, polls⟩
  rcases step_cases served done with same | ⟨work, -, -, same⟩ | ⟨id, -, rfl⟩ |
    ⟨work, rest, -, looking, open', none, waiting, rfl⟩ | ⟨claimed, -, separating, running, rfl⟩
  · exact unaccounted numbered same
  · refine unaccounted ?_ same
    exact ⟨numbered.flags, numbered.polls⟩
  · exact ⟨numbered.flags, numbered.polls⟩
  · refine ⟨by simp [taking, numbered.flags], ?_⟩
    rintro flag id ⟨claimed, busy, rfl, rfl⟩
    cases busy
    simp [taking, numbered.flags]
  · refine ⟨numbered.flags, ?_⟩
    rintro flag id ⟨other, busy, -⟩
    cases busy

theorem extends_step {inner after : Inner Id Mix Sep} {action : Action Id Mix Sep}
    (served : inner.Served) (done : inner.step action = some after) : Extends inner after := by
  rcases step_cases served done with same | ⟨work, -, -, same⟩ | ⟨id, -, rfl⟩ |
    ⟨work, rest, -, looking, open', none, waiting, rfl⟩ | ⟨claimed, -, separating, running, rfl⟩
  · have accepted : after.history.accepted = inner.history.accepted :=
      congrArg Ledger.accepted same.ledger
    have removed : after.history.removed = inner.history.removed :=
      congrArg Ledger.removed same.ledger
    exact ⟨by rw [same.taken], fun id member => accepted ▸ member,
      fun id member => removed ▸ member⟩
  · have accepted : after.history.accepted = inner.history.accepted ++ [work.job] :=
      congrArg Ledger.accepted same.ledger
    have removed : after.history.removed = inner.history.removed :=
      congrArg Ledger.removed same.ledger
    exact ⟨by rw [same.taken], fun id member => accepted ▸ List.mem_append_left _ member,
      fun id member => removed ▸ member⟩
  · exact ⟨List.prefix_rfl, fun _ member => member, fun _ member => List.mem_append_left _ member⟩
  · exact ⟨List.prefix_append _ _, fun _ member => member, fun _ member => member⟩
  · exact ⟨List.prefix_rfl, fun _ member => member, fun _ member => member⟩

theorem not_waiting_step {inner after : Inner Id Mix Sep} {action : Action Id Mix Sep}
    (served : inner.Served) (done : inner.step action = some after)
    (once : SubmitsOnce inner action) {id : Id} (accepted : id ∈ inner.history.accepted)
    (gone : id ∉ inner.waiting) : id ∉ after.waiting := by
  rcases step_cases served done with same | ⟨work, rfl, -, same⟩ | ⟨job, -, rfl⟩ |
    ⟨work, rest, -, looking, open', none, waiting, rfl⟩ | ⟨claimed, -, separating, running, rfl⟩
  · rwa [waiting, same.pending]
  · have more : after.waiting = inner.waiting ++ [work.job] := by
      rw [Inner.waiting, same.pending, List.map_append]
      rfl
    rw [more, List.mem_append, List.mem_singleton]
    rintro (waits | rfl)
    · exact gone waits
    · exact once accepted
  · intro waits
    obtain ⟨work, member, rfl⟩ := List.mem_map.mp waits
    exact gone (List.mem_map_of_mem (List.mem_filter.mp member).1)
  · intro waits
    rw [Inner.waiting, waiting] at gone
    exact gone (List.mem_cons_of_mem _ waits)
  · exact gone

theorem cancelPending_waiting (inner : Inner Id Mix Sep) (id : Id) :
    id ∉ (inner.cancelPending id).2.waiting := by
  intro waits
  obtain ⟨work, member, same⟩ := List.mem_map.mp waits
  exact of_decide_eq_true (List.mem_filter.mp member).2 same

theorem cancelPending_found {inner : Inner Id Mix Sep} {id : Id}
    (found : (inner.cancelPending id).1 = true) :
    id ∈ (inner.cancelPending id).2.history.removed := by
  obtain ⟨work, member, own⟩ : ∃ work ∈ inner.pending, work.job = id := by
    simpa [cancelPending] using found
  have waits : id ∈ inner.waiting := own ▸ List.mem_map_of_mem member
  exact List.mem_append_right _ (List.mem_filter.mpr ⟨waits, by simp⟩)

theorem cancelRunning_found {inner : Inner Id Mix Sep} {id : Id} (served : inner.Served)
    (sound : inner.ledger.Sound) (accepted : id ∈ inner.history.accepted)
    (gone : id ∉ inner.waiting) (unfinished : id ∉ inner.history.finished) :
    ((inner.cancelRunning id).1 = true ∧ ∃ flag, (inner.cancelRunning id).2.Polls flag id ∧
        (inner.cancelRunning id).2.flags[flag]? = some true) ∨
      inner.cancelRunning id = (false, inner) ∧ id ∈ inner.history.removed := by
  obtain ⟨place, there, -⟩ := sound.exactly_one accepted
  cases place with
  | waiting => exact absurd there gone
  | finished => exact absurd there unfinished
  | running =>
      obtain ⟨running, busy, rfl⟩ := Option.map_eq_some_iff.mp there
      have separating : ∃ claimed, inner.worker = .separating claimed := by
        by_contra free
        rw [served.idle fun claimed is => free ⟨claimed, is⟩] at busy
        cases busy
      obtain ⟨claimed, separating⟩ := separating
      have slot := served.slot claimed separating
      have inside := served.flagged running busy
      cases busy.symm.trans slot
      have told : inner.cancelRunning claimed.work.job = (true, inner.setFlag claimed.cancel) := by
        simp only [cancelRunning, slot, if_true]
      rw [told]
      exact .inl ⟨rfl, claimed.cancel, ⟨claimed, separating, rfl, rfl⟩,
        List.getElem?_set_self inside⟩
  | removed =>
      have other : ∀ running, inner.running = some running → running.id ≠ id := by
        rintro running busy rfl
        exact sound.elsewhere there .running (by simp) (congrArg (Option.map _) busy)
      refine .inr ⟨?_, there⟩
      unfold cancelRunning
      split
      · rename_i running busy
        rw [if_neg (other running busy)]
      · rfl

theorem numbered_of_reaches {model : Sep} {maxDepth : Nat}
    {ok : Inner Id Mix Sep → Action Id Mix Sep → Prop} {inner : Inner Id Mix Sep}
    (run : (innerSystem model maxDepth).Reaches ok (.start model maxDepth) inner) :
    inner.Numbered := by
  refine run.invariant ⟨rfl, ?_⟩ fun _ _ _ path numbered _ done =>
    numbered.step (served_of_reaches path) done
  rintro flag id ⟨claimed, busy, -⟩
  cases busy

end Inner

variable {Id Mix Sep : Type} [DecidableEq Id]

theorem Move.extends {before after : State Id Mix Sep} {event : Event Id Mix Sep}
    (move : Move before event after) (served : before.inner.Served) :
    Inner.Extends before.inner after.inner := by
  rcases move.inner with same | ⟨action, step, -⟩
  · rw [same]
    exact .refl _
  · exact Inner.extends_step served step

theorem served_of_path {model : Sep} {maxDepth : Nat}
    {ok : State Id Mix Sep → Event Id Mix Sep → Prop} {state : State Id Mix Sep}
    (run : (system model maxDepth).Reaches ok (.start model maxDepth) state) :
    state.inner.Served := Inner.served_of_reaches (inner_reaches_any run)

theorem extends_of_path {model : Sep} {maxDepth : Nat}
    {ok ok' : State Id Mix Sep → Event Id Mix Sep → Prop} {before after : State Id Mix Sep}
    (reached : (system model maxDepth).Reaches ok (.start model maxDepth) before)
    (run : (system model maxDepth).Reaches ok' before after) :
    Inner.Extends before.inner after.inner :=
  run.invariant (P := fun state => Inner.Extends before.inner state.inner) (.refl _)
    fun _ _ _ path extended _ done =>
      extended.trans ((move_of_step done).extends (served_of_path (reached.any.trans path.any)))

theorem Call.advance_flags {late : Bool} {inner after : Inner Id Mix Sep} {call next : Call Id Sep}
    {id : Id} {flag : Nat} (served : inner.Served) (cancels : call.cancels = some id)
    (done : call.advance late inner = some (after, next))
    (changed : after.flags[flag]? ≠ inner.flags[flag]?) : inner.Polls flag id := by
  cases call with
  | cancelPending other =>
      cases done
      exact absurd rfl changed
  | cancelRunning other =>
      cases cancels
      cases done
      split at changed
      · rename_i running busy
        split at changed
        · rename_i own
          by_cases separating : ∃ claimed, inner.worker = .separating claimed
          · obtain ⟨claimed, separating⟩ := separating
            rw [served.slot claimed separating] at busy
            cases busy
            refine ⟨claimed, separating, ?_, own⟩
            by_contra different
            exact changed (List.getElem?_set_ne different)
          · rw [served.idle fun claimed is => separating ⟨claimed, is⟩] at busy
            cases busy
        · exact absurd rfl changed
      · exact absurd rfl changed
  | cancelReturned other found => cases done
  | _ => cases cancels

/-- Whoever polls a flag that a call of `cancel` sets, before or after, is the job that is
being cancelled. -/
theorem flag_is_own {model : Sep} {maxDepth : Nat} {before after other : State Id Mix Sep}
    {call : Call Id Sep} {caller flag : Nat} {late : Bool} {id job : Id}
    (reached : (system model maxDepth).Reachable before)
    (here : before.calls[caller]? = some call) (cancels : call.cancels = some id)
    (done : before.step (.advance caller late) = some after)
    (changed : after.inner.flags[flag]? ≠ before.inner.flags[flag]?)
    (elsewhere : (system model maxDepth).Reachable other)
    (order : (system model maxDepth).Reaches System.Any other before ∨
      (system model maxDepth).Reaches System.Any after other)
    (polls : other.inner.Polls flag job) : job = id := by
  have mine : before.inner.Polls flag id := by
    cases move_of_step done with
    | advance there step =>
        cases here.symm.trans there
        exact Call.advance_flags (served_of_path reached) cancels step changed
  have owner := (Inner.numbered_of_reaches (inner_reaches_any reached)).polls flag id mine
  have polled := (Inner.numbered_of_reaches (inner_reaches_any elsewhere)).polls flag job polls
  rcases order with earlier | later
  · have kept := (extends_of_path elsewhere earlier).taken
    exact Option.some.inj ((getElem?_of_extends kept polled).symm.trans owner)
  · have kept := ((move_of_step done).extends (served_of_path reached)).taken.trans
      (extends_of_path (.tail (a := .advance caller late) reached trivial done) later).taken
    exact Option.some.inj (polled.symm.trans (getElem?_of_extends kept owner))

def NeverRuns (model : Sep) (maxDepth : Nat) (state : State Id Mix Sep) (id : Id) : Prop :=
  id ∈ state.inner.history.removed ∧
    ∀ later, (system model maxDepth).Reaches SubmitsOnce state later →
      id ∉ later.inner.waiting ∧ id ∉ later.inner.history.taken

def Signalled (state : State Id Mix Sep) (id : Id) : Prop :=
  ∃ flag, state.inner.Polls flag id ∧ state.inner.flags[flag]? = some true

/-- A call of `cancel(id)` from its first step, taken in `begun`, to its return, which is
the step from `before` to `after`. -/
structure Cancellation (model : Sep) (maxDepth : Nat) (id : Id) (found : Bool)
    (begun before after : State Id Mix Sep) : Prop where
  reached : (system model maxDepth).Reaches SubmitsOnce (.start model maxDepth) begun
  accepted : id ∈ begun.inner.history.accepted
  run : (system model maxDepth).Reaches SubmitsOnce
    { begun with calls := begun.calls ++ [.cancelPending id] } before
  returns : ∃ late, before.step (.advance begun.calls.length late) = some after
  answer : after.calls[begun.calls.length]? = some (.cancelReturned id found)
  unfinished : id ∉ after.inner.history.finished

theorem neverRuns_of_removed {model : Sep} {maxDepth : Nat} {state : State Id Mix Sep} {id : Id}
    (reached : (system model maxDepth).Reaches SubmitsOnce (.start model maxDepth) state)
    (gone : id ∈ state.inner.history.removed) : NeverRuns model maxDepth state id := by
  refine ⟨gone, fun later run => ?_⟩
  have path := reached.trans run
  have served := served_of_path path
  have sound := Inner.sound_of_reaches (inner_reaches_once path)
  have withdrawn : later.inner.ledger.At id .removed :=
    (extends_of_path reached run).removed id gone
  refine ⟨sound.elsewhere withdrawn .waiting (by simp), ?_⟩
  rw [served.taken, Ledger.mem_taken]
  rintro (finished | running)
  · exact sound.elsewhere withdrawn .finished (by simp) finished
  · exact sound.elsewhere withdrawn .running (by simp) running

def Looking (caller : Nat) (id : Id) (state : State Id Mix Sep) : Prop :=
  state.calls[caller]? = some (.cancelPending id) ∨
    state.calls[caller]? = some (.cancelRunning id) ∧ id ∉ state.inner.waiting ∨
      ∃ found, state.calls[caller]? = some (.cancelReturned id found)

theorem Move.not_waiting {before after : State Id Mix Sep} {event : Event Id Mix Sep}
    (move : Move before event after) (served : before.inner.Served)
    (once : SubmitsOnce before event) {id : Id} (accepted : id ∈ before.inner.history.accepted)
    (gone : id ∉ before.inner.waiting) : id ∉ after.inner.waiting := by
  rcases move.inner with same | ⟨action, step, submission⟩
  · rwa [same]
  · refine Inner.not_waiting_step served step ?_ accepted gone
    cases action with
    | submit work =>
        cases submission work rfl
        exact once
    | _ => trivial

theorem Looking.move {caller : Nat} {id : Id} {before after : State Id Mix Sep}
    {event : Event Id Mix Sep} (looking : Looking caller id before)
    (served : before.inner.Served) (once : SubmitsOnce before event)
    (accepted : id ∈ before.inner.history.accepted) (move : Move before event after) :
    Looking caller id after := by
  have gone := fun absent => move.not_waiting served once accepted absent
  -- A step of another thread leaves the call where it is.
  have stays : (∀ call, before.calls[caller]? = some call → after.calls[caller]? = some call) →
      Looking caller id after := by
    intro kept
    rcases looking with first | ⟨second, absent⟩ | ⟨found, done⟩
    · exact .inl (kept _ first)
    · exact .inr (.inl ⟨kept _ second, gone absent⟩)
    · exact .inr (.inr ⟨found, kept _ done⟩)
  cases move with
  | submit done => exact stays fun _ here => here
  | worker done => exact stays fun _ here => here
  | call method =>
      refine stays fun call here => ?_
      exact List.getElem?_append_left (List.getElem?_eq_some_iff.mp here).1 ▸ here
  | @advance mover late moving next inner here done =>
      by_cases own : mover = caller
      · subst own
        have inside := (List.getElem?_eq_some_iff.mp here).1
        rcases looking with first | ⟨second, -⟩ | ⟨found, returned⟩
        · cases here.symm.trans first
          simp only [Call.advance, Option.some.injEq, Prod.mk.injEq] at done
          obtain ⟨rfl, rfl⟩ := done
          split
          · exact .inr (.inr ⟨true, List.getElem?_set_self inside⟩)
          · exact .inr (.inl ⟨List.getElem?_set_self inside, Inner.cancelPending_waiting _ id⟩)
        · cases here.symm.trans second
          cases done
          exact .inr (.inr ⟨_, List.getElem?_set_self inside⟩)
        · cases here.symm.trans returned
          cases done
      · exact stays fun call there => by rwa [List.getElem?_set_ne own]

theorem Cancellation.looking {model : Sep} {maxDepth : Nat} {id : Id} {found : Bool}
    {begun before after : State Id Mix Sep}
    (call : Cancellation model maxDepth id found begun before after) :
    Looking begun.calls.length id before ∧ id ∈ before.inner.history.accepted := by
  have called : (system model maxDepth).Reaches SubmitsOnce (.start model maxDepth)
      { begun with calls := begun.calls ++ [.cancelPending id] } :=
    .tail (a := .call (.cancel id)) call.reached trivial rfl
  refine call.run.invariant (P := fun state => Looking begun.calls.length id state ∧
    id ∈ state.inner.history.accepted) ⟨.inl (by simp), call.accepted⟩ ?_
  rintro state event next path ⟨looking, accepted⟩ once done
  have move := move_of_step done
  have served := served_of_path (called.trans path)
  exact ⟨looking.move served once accepted move, (move.extends served).accepted id accepted⟩

/-- A call finds the job at one of its two looks, unless another call has taken it out. -/
theorem Cancellation.answers {model : Sep} {maxDepth : Nat} {id : Id} {found : Bool}
    {begun before after : State Id Mix Sep}
    (call : Cancellation model maxDepth id found begun before after) :
    found = true ∧ (NeverRuns model maxDepth after id ∨ Signalled after id) ∨
      found = false ∧ id ∈ before.inner.history.removed ∧ NeverRuns model maxDepth after id := by
  obtain ⟨looking, accepted⟩ := call.looking
  obtain ⟨late, returns⟩ := call.returns
  have called : (system model maxDepth).Reaches SubmitsOnce (.start model maxDepth)
      { begun with calls := begun.calls ++ [.cancelPending id] } :=
    .tail (a := .call (.cancel id)) call.reached trivial rfl
  have path := called.trans call.run
  have reached : (system model maxDepth).Reaches SubmitsOnce (.start model maxDepth) after :=
    .tail (a := .advance begun.calls.length late) path trivial returns
  have served := served_of_path path
  have sound := Inner.sound_of_reaches (inner_reaches_once path)
  have answer := call.answer
  have unfinished := call.unfinished
  cases move_of_step returns with
  | @advance _ _ moving next inner here done =>
      have inside := (List.getElem?_eq_some_iff.mp here).1
      have returned : next = .cancelReturned id found := by
        simpa [List.getElem?_set_self inside] using answer
      subst returned
      rcases looking with first | ⟨second, absent⟩ | ⟨found, already⟩
      · cases here.symm.trans first
        simp only [Call.advance, Option.some.injEq, Prod.mk.injEq] at done
        obtain ⟨rfl, answered⟩ := done
        split at answered
        · rename_i dropped
          cases answered
          exact .inl ⟨rfl, .inl (neverRuns_of_removed reached
            (Inner.cancelPending_found dropped))⟩
        · cases answered
      · cases here.symm.trans second
        simp only [Call.advance, Option.some.injEq, Prod.mk.injEq, Call.cancelReturned.injEq,
          true_and] at done
        obtain ⟨rfl, rfl⟩ := done
        rw [(before.inner.cancelRunning_frame id).1] at unfinished
        rcases Inner.cancelRunning_found served sound accepted absent unfinished with
          ⟨answered, signalled⟩ | ⟨missed, gone⟩
        · exact .inl ⟨answered, .inr signalled⟩
        · refine .inr ⟨congrArg Prod.fst missed, gone, neverRuns_of_removed reached ?_⟩
          rw [missed]
          exact gone
      · cases here.symm.trans already
        cases done

/-- A call finds a job that is neither over nor already withdrawn, and no call reaches
another job's separation. -/
theorem cancel_never_misses (model : Sep) (maxDepth : Nat) :
    (∀ (id : Id) (found : Bool) (begun before after : State Id Mix Sep),
      Cancellation model maxDepth id found begun before after →
        found = true ∧ (NeverRuns model maxDepth after id ∨ Signalled after id) ∨
          found = false ∧ id ∈ before.inner.history.removed ∧
            NeverRuns model maxDepth after id) ∧
      ∀ (before after other : State Id Mix Sep) (call : Call Id Sep) (caller flag : Nat)
        (late : Bool) (id job : Id), (system model maxDepth).Reachable before →
          before.calls[caller]? = some call → call.cancels = some id →
            before.step (.advance caller late) = some after →
              after.inner.flags[flag]? ≠ before.inner.flags[flag]? →
                (system model maxDepth).Reachable other →
                  ((system model maxDepth).Reaches System.Any other before ∨
                    (system model maxDepth).Reaches System.Any after other) →
                  other.inner.Polls flag job → job = id := by
  constructor
  · intro id found begun before after call
    exact call.answers
  · intro before after other call caller flag late id job reached here cancels done changed
      elsewhere order polls
    exact flag_is_own reached here cancels done changed elsewhere order polls

def carriesThrough [DecidableEq Sep] (model : Sep) (maxDepth : Nat) (id : Id) (found : Bool)
    (P : State Id Mix Sep → State Id Mix Sep → Bool) (begun : State Id Mix Sep)
    (events : List (Event Id Mix Sep)) : Bool :=
  ((system model maxDepth).replay SubmitsOnce
    { begun with calls := begun.calls ++ [.cancelPending id] } events).any fun before =>
      (before.step (.advance begun.calls.length false)).any fun after =>
        decide (id ∈ begun.inner.history.accepted ∧
          after.calls[begun.calls.length]? = some (.cancelReturned id found) ∧
            id ∉ after.inner.history.finished) && P before after

theorem cancellation_of_replay [DecidableEq Sep] {model : Sep} {maxDepth : Nat} {id : Id}
    {found : Bool} {P : State Id Mix Sep → State Id Mix Sep → Bool} {begun : State Id Mix Sep}
    (reached : (system model maxDepth).Reaches SubmitsOnce (.start model maxDepth) begun)
    {events : List (Event Id Mix Sep)}
    (returned : carriesThrough model maxDepth id found P begun events = true) :
    ∃ before after, Cancellation model maxDepth id found begun before after ∧
      before.step (.advance begun.calls.length false) = some after ∧ P before after = true := by
  obtain ⟨before, run, returned⟩ := (Option.any_eq_true _ _).mp returned
  obtain ⟨after, returns, returned⟩ := (Option.any_eq_true _ _).mp returned
  obtain ⟨facts, holds⟩ := Bool.and_eq_true_iff.mp returned
  obtain ⟨accepted, answer, unfinished⟩ := of_decide_eq_true facts
  exact ⟨before, after, ⟨reached, accepted, System.reaches_of_replay run, ⟨false, returns⟩, answer,
    unfinished⟩, returns, holds⟩

/-- The worker has taken the job before the call looks; the flag it sets is the job's own. -/
theorem running_job_is_signalled :
    ∃ begun before after : State String Unit String,
      Cancellation "htdemucs" 4 demoJob.job true begun before after ∧
        (NeverRuns "htdemucs" 4 after demoJob.job ∨ Signalled after demoJob.job) ∧
          ∀ other : State String Unit String, (system "htdemucs" 4).Reaches System.Any after other →
            ∀ job, other.inner.Polls 0 job → job = demoJob.job := by
  have started : ∃ begun : State String Unit String,
      (system "htdemucs" 4).Reaches SubmitsOnce (.start "htdemucs" 4) begun ∧
        carriesThrough "htdemucs" 4 demoJob.job true (fun before after =>
          begun.calls = [] ∧ before.calls[0]? = some (.cancelRunning demoJob.job) ∧
            before.inner.flags[0]? = some false ∧ after.inner.flags[0]? = some true) begun
          [.advance 0 false] = true :=
    System.exists_of_replay [.submit demoJob, .worker .next] (by decide)
  obtain ⟨begun, reached, returned⟩ := started
  obtain ⟨before, after, call, returns, facts⟩ := cancellation_of_replay reached returned
  obtain ⟨first, here, unset, set⟩ := of_decide_eq_true facts
  have contract := @cancel_never_misses String Unit String _ "htdemucs" 4
  refine ⟨begun, before, after, call, ?_, fun other later job polls => ?_⟩
  · rcases contract.1 _ _ _ _ _ call with ⟨-, found⟩ | ⟨missed, -⟩
    · exact found
    · cases missed
  · rw [first] at returns
    have called : (system "htdemucs" 4).Reachable
        { begun with calls := begun.calls ++ [.cancelPending demoJob.job] } :=
      .tail (a := .call (.cancel demoJob.job)) reached.any trivial rfl
    have path := called.trans call.run.any
    have ended : (system "htdemucs" 4).Reachable after :=
      .tail (a := .advance 0 false) path trivial returns
    exact contract.2 before after other _ 0 0 false demoJob.job job path here rfl returns
      (by simp [unset, set]) (ended.trans later) (.inr later) polls

/-- Two calls for one waiting job: the second comes too late to take it out, and says so. -/
theorem second_cancel_returns_false :
    ¬ ∀ (id : String) (found : Bool) (begun before after : State String Unit String),
      Cancellation "htdemucs" 4 id found begun before after →
        found = true ∧ (NeverRuns "htdemucs" 4 after id ∨ Signalled after id) := by
  intro claim
  have started : ∃ begun : State String Unit String,
      (system "htdemucs" 4).Reaches SubmitsOnce (.start "htdemucs" 4) begun ∧
        carriesThrough "htdemucs" 4 demoJob.job false (fun _ _ => true) begun
          [.advance 1 false] = true :=
    System.exists_of_replay [.submit demoJob, .call (.cancel demoJob.job), .advance 0 false]
      (by decide)
  obtain ⟨begun, reached, returned⟩ := started
  obtain ⟨before, after, call, -, -⟩ := cancellation_of_replay reached returned
  cases (claim _ _ _ _ _ call).1

end Stemd.Queue
