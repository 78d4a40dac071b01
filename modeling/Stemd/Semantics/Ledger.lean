import Mathlib.Algebra.Ring.Nat
import Mathlib.Data.List.Count
import Mathlib.Data.List.Nodup
import Mathlib.Data.List.Basic
import Stemd.Semantics.Transition

/-! Work accounting for a single server with withdrawal.

Items are accepted once, wait, may be withdrawn while they wait, and are served one
at a time from the front. Where every item went is then decided by the order in
which they were accepted. -/

set_option autoImplicit false

namespace Stemd.Semantics

theorem countP_set_add {α : Type} (p : α → Bool) {l : List α} {index : Nat} {old : α} (new : α)
    (here : l[index]? = some old) :
    (l.set index new).countP p + (if p old then 1 else 0) =
      l.countP p + (if p new then 1 else 0) := by
  induction l generalizing index with
  | nil => simp at here
  | cons head tail ih =>
      cases index with
      | zero =>
          simp only [List.getElem?_cons_zero, Option.some.injEq] at here
          subst here
          simp only [List.set_cons_zero, List.countP_cons]
          omega
      | succ index =>
          have rest := ih (by simpa using here)
          simp only [List.set_cons_succ, List.countP_cons]
          omega

theorem sum_map_set_add {α : Type} (f : α → Nat) {l : List α} {index : Nat} {old : α} (new : α)
    (here : l[index]? = some old) :
    ((l.set index new).map f).sum + f old = (l.map f).sum + f new := by
  induction l generalizing index with
  | nil => simp at here
  | cons head tail ih =>
      cases index with
      | zero =>
          simp only [List.getElem?_cons_zero, Option.some.injEq] at here
          subst here
          simp only [List.set_cons_zero, List.map_cons, List.sum_cons]
          omega
      | succ index =>
          have rest := ih (by simpa using here)
          simp only [List.set_cons_succ, List.map_cons, List.sum_cons]
          omega

structure Ledger (α : Type) where
  accepted : List α
  waiting : List α
  running : Option α
  finished : List α
  removed : List α

namespace Ledger

variable {α : Type}

def empty : Ledger α := ⟨[], [], none, [], []⟩

def taken (ledger : Ledger α) : List α := ledger.finished ++ ledger.running.toList

inductive Event (α : Type) where
  | accept (item : α)
  | remove (item : α)
  | start
  | finish

variable [DecidableEq α]

def step (ledger : Ledger α) : Event α → Option (Ledger α)
  | .accept item => some { ledger with
      accepted := ledger.accepted ++ [item]
      waiting := ledger.waiting ++ [item] }
  | .remove item => some { ledger with
      waiting := ledger.waiting.filter (· ≠ item)
      removed := ledger.removed ++ ledger.waiting.filter (· = item) }
  | .start => match ledger.waiting, ledger.running with
      | item :: rest, none => some { ledger with waiting := rest, running := some item }
      | _, _ => none
  | .finish => match ledger.running with
      | some item => some { ledger with running := none, finished := ledger.finished ++ [item] }
      | none => none

def system : System (Ledger α) (Event α) := ⟨empty, step⟩

def Fresh (ledger : Ledger α) : Event α → Prop
  | .accept item => item ∉ ledger.accepted
  | _ => True

/-- The items not withdrawn are those begun and those waiting, in the order they came. -/
structure Sound (ledger : Ledger α) : Prop where
  once : ledger.accepted.Nodup
  order : ledger.taken ++ ledger.waiting = ledger.accepted.filter (· ∉ ledger.removed)
  withdrawn : ∀ item ∈ ledger.removed, item ∈ ledger.accepted

theorem Sound.distinct {ledger : Ledger α} (sound : ledger.Sound) :
    (ledger.taken ++ ledger.waiting).Nodup :=
  sound.order ▸ sound.once.filter _

theorem Sound.known {ledger : Ledger α} (sound : ledger.Sound) {item : α} :
    item ∈ ledger.taken ++ ledger.waiting ↔ item ∈ ledger.accepted ∧ item ∉ ledger.removed := by
  rw [sound.order, List.mem_filter, decide_eq_true_eq]

theorem Sound.accept {ledger : Ledger α} (sound : ledger.Sound) {item : α}
    (fresh : item ∉ ledger.accepted) :
    Sound { ledger with
      accepted := ledger.accepted ++ [item]
      waiting := ledger.waiting ++ [item] } where
  once := by
    rw [List.nodup_append]
    exact ⟨sound.once, List.nodup_singleton _, fun a member b single =>
      fun same => fresh (List.mem_singleton.mp single ▸ same ▸ member)⟩
  order := by
    have kept : item ∉ ledger.removed := fun gone => fresh (sound.withdrawn item gone)
    have before := sound.order
    simp only [taken] at before ⊢
    rw [List.filter_append, ← before]
    simp [kept]
  withdrawn := fun a gone => List.mem_append_left _ (sound.withdrawn a gone)

theorem Sound.remove {ledger : Ledger α} (sound : ledger.Sound) (item : α) :
    Sound { ledger with
      waiting := ledger.waiting.filter (· ≠ item)
      removed := ledger.removed ++ ledger.waiting.filter (· = item) } where
  once := sound.once
  order := by
    have apart := (List.nodup_append.mp sound.distinct).2.2
    have begun : ledger.taken.filter (· ∉ ledger.waiting.filter (· = item)) = ledger.taken := by
      apply List.filter_eq_self.mpr
      intro a member
      simp only [decide_eq_true_eq]
      exact fun gone => apart a member a (List.mem_filter.mp gone).1 rfl
    have left : ledger.waiting.filter (· ∉ ledger.waiting.filter (· = item)) =
        ledger.waiting.filter (· ≠ item) := by
      apply List.filter_congr
      intro a member
      simp [member]
    have both : ledger.accepted.filter
        (· ∉ ledger.removed ++ ledger.waiting.filter (· = item)) =
          (ledger.accepted.filter (· ∉ ledger.removed)).filter
            (· ∉ ledger.waiting.filter (· = item)) := by
      rw [List.filter_filter]
      apply List.filter_congr
      intro a _
      by_cases gone : a ∈ ledger.removed <;> simp [gone]
    change ledger.taken ++ _ = _
    rw [both, ← sound.order, List.filter_append, begun, left]
  withdrawn := fun a gone => by
    rcases List.mem_append.mp gone with gone | gone
    · exact sound.withdrawn a gone
    · exact (sound.known.mp (List.mem_append_right _ (List.mem_filter.mp gone).1)).1

theorem Sound.step {ledger next : Ledger α} (sound : ledger.Sound) {event : Event α}
    (fresh : Fresh ledger event) (done : ledger.step event = some next) : next.Sound := by
  cases event with
  | accept item => exact Option.some.inj done ▸ sound.accept fresh
  | remove item => exact Option.some.inj done ▸ sound.remove item
  | start =>
      obtain ⟨accepted, waiting, running, finished, removed⟩ := ledger
      rcases waiting with _ | ⟨item, rest⟩ <;> rcases running with _ | busy <;> cases done
      exact ⟨sound.once, by simpa [taken] using sound.order, sound.withdrawn⟩
  | finish =>
      obtain ⟨accepted, waiting, running, finished, removed⟩ := ledger
      rcases running with _ | item <;> cases done
      exact ⟨sound.once, by simpa [taken] using sound.order, sound.withdrawn⟩

theorem sound_of_reaches {ledger : Ledger α} (run : system.Reaches Fresh empty ledger) :
    ledger.Sound :=
  run.invariant ⟨List.nodup_nil, rfl, fun _ gone => by cases gone⟩
    fun _ _ _ _ sound fresh done => sound.step fresh done

inductive Place where
  | waiting
  | running
  | finished
  | removed
  deriving DecidableEq, Repr

def At (ledger : Ledger α) (item : α) : Place → Prop
  | .waiting => item ∈ ledger.waiting
  | .running => ledger.running = some item
  | .finished => item ∈ ledger.finished
  | .removed => item ∈ ledger.removed

omit [DecidableEq α] in
theorem mem_taken {ledger : Ledger α} {item : α} :
    item ∈ ledger.taken ↔ ledger.At item .finished ∨ ledger.At item .running := by
  simp [taken, At, Option.mem_toList]

theorem Sound.at_accepted {ledger : Ledger α} (sound : ledger.Sound) {item : α} {place : Place}
    (here : ledger.At item place) : item ∈ ledger.accepted := by
  cases place with
  | waiting => exact (sound.known.mp (List.mem_append_right _ here)).1
  | running => exact (sound.known.mp (List.mem_append_left _ (mem_taken.mpr (.inr here)))).1
  | finished => exact (sound.known.mp (List.mem_append_left _ (mem_taken.mpr (.inl here)))).1
  | removed => exact sound.withdrawn item here

theorem Sound.at_unique {ledger : Ledger α} (sound : ledger.Sound) {item : α}
    {here there : Place} (first : ledger.At item here) (second : ledger.At item there) :
    here = there := by
  obtain ⟨begun, -, apart⟩ := List.nodup_append.mp sound.distinct
  obtain ⟨-, -, served⟩ := List.nodup_append.mp begun
  have taken_waiting : item ∈ ledger.taken → item ∈ ledger.waiting → False :=
    fun left right => apart item left item right rfl
  have kept : item ∈ ledger.taken ++ ledger.waiting → item ∉ ledger.removed :=
    fun member => (sound.known.mp member).2
  have done_running : item ∈ ledger.finished → ledger.running = some item → False :=
    fun left right => served item left item (by simp [right]) rfl
  have running_taken : ledger.running = some item → item ∈ ledger.taken :=
    fun is => mem_taken.mpr (.inr is)
  have done_taken : item ∈ ledger.finished → item ∈ ledger.taken :=
    fun is => mem_taken.mpr (.inl is)
  cases here <;> cases there <;> simp only [At] at first second <;> first | rfl | skip
  all_goals exfalso
  all_goals first
    | exact taken_waiting (running_taken ‹_›) ‹_›
    | exact taken_waiting (done_taken ‹_›) ‹_›
    | exact done_running ‹_› ‹_›
    | exact kept (List.mem_append_right _ ‹_›) ‹_›
    | exact kept (List.mem_append_left _ (running_taken ‹_›)) ‹_›
    | exact kept (List.mem_append_left _ (done_taken ‹_›)) ‹_›

theorem Sound.elsewhere {ledger : Ledger α} (sound : ledger.Sound) {item : α} {here : Place}
    (there : ledger.At item here) (place : Place) (other : place ≠ here) :
    ¬ ledger.At item place :=
  fun also => other (sound.at_unique also there)

theorem Sound.exactly_one {ledger : Ledger α} (sound : ledger.Sound) {item : α}
    (member : item ∈ ledger.accepted) : ∃! place, ledger.At item place := by
  have somewhere : ∃ place, ledger.At item place := by
    by_cases gone : item ∈ ledger.removed
    · exact ⟨.removed, gone⟩
    rcases List.mem_append.mp (sound.known.mpr ⟨member, gone⟩) with begun | waits
    · rcases mem_taken.mp begun with done | busy
      · exact ⟨.finished, done⟩
      · exact ⟨.running, busy⟩
    · exact ⟨.waiting, waits⟩
  obtain ⟨place, here⟩ := somewhere
  exact ⟨place, here, fun other there => sound.at_unique there here⟩

end Ledger

end Stemd.Semantics
