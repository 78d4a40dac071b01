import Mathlib.Logic.Function.Basic

/-! Guarded executable transition systems.

A step function returning `none` where an action is not enabled serves replay,
invariant proofs and simulation at once. Runs carry a condition on every step,
so that one induction rule covers unrestricted and restricted executions. -/

set_option autoImplicit false

namespace Stemd.Semantics

structure System (S A : Type) where
  init : S
  step : S → A → Option S

namespace System

variable {S A T B : Type}

/-- States reached from `s` by steps that each meet `ok` where they are taken. -/
inductive Reaches (sys : System S A) (ok : S → A → Prop) (s : S) : S → Prop where
  | refl : Reaches sys ok s s
  | tail {t u : S} {a : A} : Reaches sys ok s t → ok t a → sys.step t a = some u →
      Reaches sys ok s u

def Any (_ : S) (_ : A) : Prop := True

instance (s : S) (a : A) : Decidable (Any s a) := inferInstanceAs (Decidable True)

abbrev Reachable (sys : System S A) (s : S) : Prop := sys.Reaches Any sys.init s

variable {sys : System S A} {ok : S → A → Prop}

/-- The reached state is available to the preservation proof, so an invariant may
rest on invariants established earlier. -/
theorem Reaches.invariant {P : S → Prop} {s t : S} (run : sys.Reaches ok s t) (start : P s)
    (keep : ∀ t a u, sys.Reaches ok s t → P t → ok t a → sys.step t a = some u → P u) : P t := by
  induction run with
  | refl => exact start
  | tail before allowed step ih => exact keep _ _ _ before ih allowed step

theorem Reaches.mono {ok' : S → A → Prop} {s t : S} (run : sys.Reaches ok s t)
    (weaker : ∀ s a, ok s a → ok' s a) : sys.Reaches ok' s t := by
  induction run with
  | refl => exact .refl
  | tail _ allowed step ih => exact .tail ih (weaker _ _ allowed) step

theorem Reaches.any {s t : S} (run : sys.Reaches ok s t) : sys.Reaches Any s t :=
  run.mono fun _ _ _ => trivial

theorem Reaches.trans {s t u : S} (first : sys.Reaches ok s t) (rest : sys.Reaches ok t u) :
    sys.Reaches ok s u := by
  induction rest with
  | refl => exact first
  | tail _ allowed step ih => exact .tail ih allowed step

/-- A projection under which every step is a step of the smaller system or leaves
its state alone carries runs to runs. -/
theorem Reaches.project {s t : S} (run : sys.Reaches ok s t) (small : System T B)
    {ok' : T → B → Prop} (view : S → T)
    (steps : ∀ t a u, sys.Reaches ok s t → ok t a → sys.step t a = some u →
      view u = view t ∨ ∃ b, ok' (view t) b ∧ small.step (view t) b = some (view u)) :
    small.Reaches ok' (view s) (view t) := by
  induction run with
  | refl => exact .refl
  | tail before allowed step ih =>
      rcases steps _ _ _ before allowed step with same | ⟨b, allowed', step'⟩
      · exact same ▸ ih
      · exact .tail ih allowed' step'

def replay (sys : System S A) (ok : S → A → Prop) [∀ s a, Decidable (ok s a)] (s : S) :
    List A → Option S
  | [] => some s
  | a :: rest => if ok s a then (sys.step s a).bind fun t => replay sys ok t rest else none

theorem reaches_of_replay [∀ s a, Decidable (ok s a)] {s t : S} {actions : List A}
    (done : sys.replay ok s actions = some t) : sys.Reaches ok s t := by
  induction actions generalizing s with
  | nil => exact Option.some.inj done ▸ .refl
  | cons a rest ih =>
      simp only [replay] at done
      split at done
      · rename_i allowed
        obtain ⟨next, step, done⟩ := Option.bind_eq_some_iff.mp done
        exact (Reaches.tail .refl allowed step).trans (ih done)
      · cases done

theorem exists_of_replay {P : S → Prop} [DecidablePred P] [∀ s a, Decidable (ok s a)] {s : S}
    (actions : List A) (found : (sys.replay ok s actions).any (fun t => decide (P t)) = true) :
    ∃ t, sys.Reaches ok s t ∧ P t := by
  obtain ⟨t, done, holds⟩ := (Option.any_eq_true _ _).mp found
  exact ⟨t, reaches_of_replay done, of_decide_eq_true holds⟩

structure Run (sys : System S A) (n : Nat) (state : Nat → S) (action : Nat → A) : Prop where
  start : state 0 = sys.init
  step : ∀ i < n, sys.step (state i) (action i) = some (state (i + 1))

theorem Run.stretch {n : Nat} {state : Nat → S} {action : Nat → A} (run : sys.Run n state action)
    {i j : Nat} (le : i ≤ j) (inside : j ≤ n) : sys.Reaches Any (state i) (state j) := by
  induction le with
  | refl => exact .refl
  | @step j _ ih => exact .tail (ih (Nat.le_of_succ_le inside)) trivial (run.step j inside)

theorem Run.reachable {n : Nat} {state : Nat → S} {action : Nat → A}
    (run : sys.Run n state action) {i : Nat} (inside : i ≤ n) : sys.Reachable (state i) := by
  have whole := run.stretch (Nat.zero_le i) inside
  rwa [run.start] at whole

def trail (sys : System S A) (s : S) : List A → Nat → S
  | [], _ => s
  | _ :: _, 0 => s
  | a :: rest, i + 1 => (sys.step s a).elim s fun t => trail sys t rest i

theorem trail_zero (sys : System S A) (s : S) (actions : List A) : sys.trail s actions 0 = s := by
  cases actions <;> rfl

theorem trail_step {s t : S} {actions : List A} (idle : A)
    (done : sys.replay Any s actions = some t) {i : Nat} (inside : i < actions.length) :
    sys.step (sys.trail s actions i) (actions.getD i idle) =
      some (sys.trail s actions (i + 1)) := by
  induction actions generalizing s i with
  | nil => exact absurd inside (Nat.not_lt_zero i)
  | cons a rest ih =>
      have any : Any s a := trivial
      rw [replay, if_pos any] at done
      obtain ⟨next, step, done⟩ := Option.bind_eq_some_iff.mp done
      cases i with
      | zero =>
          rw [trail, trail, List.getD_cons_zero, step, Option.elim_some, trail_zero]
      | succ i =>
          rw [trail, trail, List.getD_cons_succ, step, Option.elim_some, Option.elim_some]
          exact ih done (Nat.lt_of_succ_lt_succ inside)

theorem run_of_replay {t : S} {actions : List A} (idle : A)
    (done : sys.replay Any sys.init actions = some t) :
    sys.Run actions.length (sys.trail sys.init actions) (actions.getD · idle) :=
  ⟨trail_zero sys sys.init actions, fun _ inside => trail_step idle done inside⟩

/-- Every run of steps that meet `ok` is finite, and comes to `P` before it ends. -/
inductive Inevitably (sys : System S A) (ok : S → A → Prop) (P : S → Prop) : S → Prop where
  | now {s : S} (holds : P s) : Inevitably sys ok P s
  | later {s : S} (moves : ∃ a t, ok s a ∧ sys.step s a = some t)
      (rest : ∀ a t, ok s a → sys.step s a = some t → Inevitably sys ok P t) :
      Inevitably sys ok P s

/-- Steps that use something up come to `P`, where there is always one until `P` holds. -/
theorem inevitably_of_measure {P Q : S → Prop} (measure : S → Nat)
    (keep : ∀ s a t, Q s → ok s a → sys.step s a = some t → Q t)
    (less : ∀ s a t, Q s → ok s a → sys.step s a = some t → measure t < measure s)
    (moves : ∀ s, Q s → ¬ P s → ∃ a t, ok s a ∧ sys.step s a = some t) {s : S} (start : Q s) :
    sys.Inevitably ok P s := by
  induction size : measure s using Nat.strongRecOn generalizing s with
  | ind n ih =>
      by_cases holds : P s
      · exact .now holds
      · refine .later (moves s start holds) fun a t allowed step => ?_
        exact ih (measure t) (size ▸ less s a t start allowed step) (keep s a t start allowed step)
          rfl

end System

end Stemd.Semantics
