import Stemd.Preferences.Store
import Stemd.Semantics.Transition

/-! Setters on several threads, and what is left in the settings file.

A call changes the settings under the lock, and takes what it is to save away with it. It
writes that to a staging file which all calls share, and renames the staging file into
place. Either can come late. -/

set_option autoImplicit false

namespace Stemd.Preferences

open Stemd.Semantics

variable {Text : Type}

/-- A call after its time under the lock, with what it took away. -/
inductive Phase where
  | saving (snapshot : Settings)
  | installing (snapshot : Settings)
  | returned
  deriving DecidableEq, Repr

structure Writers (Text : Type) where
  state : State
  pinned : Pinned
  file : Option Text
  staging : Option Text
  calls : List Phase
  /-- Whether some call has met with an I/O error. -/
  failed : Bool
  deriving DecidableEq

inductive Step (Text : Type) where
  | update (setter : Setter)
  | stage (call : Nat)
  /-- The write fails and leaves what it will in the staging file. -/
  | stageFails (call : Nat) (left : Option Text)
  | install (call : Nat)
  | installFails (call : Nat)
  deriving DecidableEq, Repr

def Step.isStage : Step Text → Bool
  | .stage _ => true
  | _ => false

namespace Writers

def step (json : Json Text) (writers : Writers Text) : Step Text → Option (Writers Text)
  | .update setter =>
      if writers.pinned.blocks setter then some writers
      else
        let state := writers.state.change setter.apply
        some { writers with state := state, calls := writers.calls ++ [.saving state.saved] }
  | .stage call =>
      match writers.calls[call]? with
      | some (.saving snapshot) => some { writers with
          staging := some (textOf json snapshot)
          calls := writers.calls.set call (.installing snapshot) }
      | _ => none
  | .stageFails call left =>
      match writers.calls[call]? with
      | some (.saving _) => some { writers with
          staging := left
          calls := writers.calls.set call .returned
          failed := true }
      | _ => none
  | .install call =>
      match writers.calls[call]? with
      | some (.installing _) => match writers.staging with
        | some text => some { writers with
            file := some text
            staging := none
            calls := writers.calls.set call .returned }
        -- Another call's rename has taken the staging file away.
        | none => some { writers with calls := writers.calls.set call .returned, failed := true }
      | _ => none
  | .installFails call =>
      match writers.calls[call]? with
      | some (.installing _) =>
          some { writers with calls := writers.calls.set call .returned, failed := true }
      | _ => none

def launch (json : Json Text) (file staging : Option Text) (format : Option Core.StemFormat)
    (rate : Option Core.OutputRate) : Writers Text where
  state := (State.opened json file).pin format rate
  pinned := ⟨format.isSome, rate.isSome⟩
  file := file
  staging := staging
  calls := []
  failed := false

def system (json : Json Text) (file staging : Option Text) (format : Option Core.StemFormat)
    (rate : Option Core.OutputRate) : System (Writers Text) (Step Text) :=
  ⟨launch json file staging format rate, step json⟩

def Quiet (writers : Writers Text) : Prop := ∀ phase ∈ writers.calls, phase = .returned

/-- Once some call has saved, all have returned and none has failed, the file is a document
of the settings in memory. -/
def Kept (json : Json Text) (writers : Writers Text) : Prop :=
  writers.calls ≠ [] → writers.Quiet → writers.failed = false →
    load json writers.file = some writers.state.saved

/-- Whenever a call writes, what is in memory has yet to be written. -/
def InOrder (writers : Writers Text) (step : Step Text) : Prop :=
  step.isStage = true → .saving writers.state.saved ∈ writers.calls

instance (writers : Writers Text) (step : Step Text) : Decidable (writers.InOrder step) :=
  inferInstanceAs (Decidable (_ → _))

/-- Where what is in memory has got to: a call has yet to write it, or it is staged and yet
to be installed, or it is in the file. -/
inductive Underway (json : Json Text) (writers : Writers Text) : Prop where
  | saving (held : .saving writers.state.saved ∈ writers.calls)
  | staged (text : writers.staging = some (textOf json writers.state.saved))
      (installing : ∃ snapshot, .installing snapshot ∈ writers.calls)
  | installed (none : writers.staging = none)
      (text : writers.file = some (textOf json writers.state.saved))

structure Following (json : Json Text) (writers : Writers Text) : Prop where
  reconciled : writers.state.saved.Reconciled
  underway : writers.calls ≠ [] → writers.failed = false → Underway json writers

variable {json : Json Text}

theorem launch_following (file staging : Option Text) (format : Option Core.StemFormat)
    (rate : Option Core.OutputRate) : Following json (launch json file staging format rate) :=
  ⟨(State.opened_reconciled json file).saved, fun some _ => absurd rfl some⟩

theorem mem_set_of_ne {calls : List Phase} {call : Nat} {phase old other : Phase}
    (here : calls[call]? = some old) (member : other ∈ calls) (apart : other ≠ old) :
    other ∈ calls.set call phase := by
  obtain ⟨place, bound, rfl⟩ := List.mem_iff_getElem.mp member
  have elsewhere : call ≠ place := by
    rintro rfl
    exact apart (Option.some.inj ((List.getElem?_eq_getElem bound).symm.trans here))
  exact List.mem_iff_getElem.mpr
    ⟨place, by simpa using bound, List.getElem_set_ne elsewhere _⟩

theorem step_following {writers writers' : Writers Text} {step : Step Text}
    (following : Following json writers) (inOrder : writers.InOrder step)
    (done : writers.step json step = some writers') : Following json writers' := by
  obtain ⟨reconciled, underway⟩ := following
  cases step with
  | update setter =>
      simp only [Writers.step] at done
      split at done
      · obtain rfl := Option.some.inj done
        exact ⟨reconciled, underway⟩
      · obtain rfl := Option.some.inj done
        exact ⟨(State.change_reconciled _ _).saved, fun _ _ =>
          .saving (List.mem_append_right _ (List.mem_singleton_self _))⟩
  | stage call =>
      have held := inOrder rfl
      simp only [Writers.step] at done
      split at done
      · rename_i snapshot here
        obtain rfl := Option.some.inj done
        refine ⟨reconciled, fun _ _ => ?_⟩
        by_cases own : snapshot = writers.state.saved
        · subst own
          have bound : call < writers.calls.length := (List.getElem?_eq_some_iff.mp here).1
          exact .staged rfl ⟨_, List.mem_set bound _⟩
        · exact .saving (mem_set_of_ne here held fun same => own (Phase.saving.inj same).symm)
      · cases done
  | stageFails call left =>
      simp only [Writers.step] at done
      split at done
      · obtain rfl := Option.some.inj done
        exact ⟨reconciled, fun _ fine => by cases fine⟩
      · cases done
  | install call =>
      simp only [Writers.step] at done
      split at done
      · rename_i snapshot here
        split at done
        · rename_i text staged
          obtain rfl := Option.some.inj done
          refine ⟨reconciled, fun _ fine => ?_⟩
          have some : writers.calls ≠ [] := by
            intro none
            rw [none] at here
            cases here
          rcases underway some fine with held | ⟨mine, -⟩ | ⟨none, -⟩
          · exact .saving (mem_set_of_ne here held (by simp))
          · exact .installed rfl (staged.symm.trans mine)
          · cases staged.symm.trans none
        · obtain rfl := Option.some.inj done
          exact ⟨reconciled, fun _ fine => by cases fine⟩
      · cases done
  | installFails call =>
      simp only [Writers.step] at done
      split at done
      · obtain rfl := Option.some.inj done
        exact ⟨reconciled, fun _ fine => by cases fine⟩
      · cases done

theorem Following.kept {writers : Writers Text} (following : Following json writers) :
    Kept json writers := by
  intro some quiet fine
  rcases following.underway some fine with held | ⟨-, snapshot, installing⟩ | ⟨-, text⟩
  · cases quiet _ held
  · cases quiet _ installing
  · rw [text, load_textOf json following.reconciled]

/-- No settings write is lost in a run whose calls write in order. -/
theorem settings_kept {file staging : Option Text} {format : Option Core.StemFormat}
    {rate : Option Core.OutputRate} {writers : Writers Text}
    (run : (system json file staging format rate).Reaches InOrder
      (launch json file staging format rate) writers) : Kept json writers := by
  have following : Following json writers :=
    run.invariant (launch_following file staging format rate)
      fun _ _ _ _ before inOrder done => step_following before inOrder done
  exact following.kept

instance (writers : Writers Text) : Decidable writers.Quiet :=
  inferInstanceAs (Decidable (∀ phase ∈ writers.calls, phase = .returned))

/-- The window chooses a rate while the switch of a model records its preset: the calls overlap,
and the older writes first. -/
theorem overlapping_saves_are_kept :
    ∃ writers : Writers Stored, load Json.plain writers.file = some writers.state.saved ∧
      writers.calls.length = 2 ∧
      writers.state.saved.rate = .hz96000 ∧ writers.state.saved.preset = .quality := by
  have run : ∃ writers : Writers Stored,
      (system Json.plain none none none none).Reaches InOrder
        (launch Json.plain none none none none) writers ∧
      writers.Quiet ∧ writers.failed = false ∧ writers.calls.length = 2 ∧
        writers.state.saved.rate = .hz96000 ∧ writers.state.saved.preset = .quality :=
    System.exists_of_replay
      [.update (.setRate .hz96000), .update (.setPreset .quality), .stage 0, .install 0, .stage 1,
        .install 1] (by decide)
  obtain ⟨writers, run, quiet, fine, count, chosen⟩ := run
  refine ⟨writers, settings_kept run ?_ quiet fine, count, chosen⟩
  intro none
  rw [none] at count
  cases count

/-- The window's call took the settings away before the switch recorded its preset, and is
installed last: the file keeps the preset that was replaced. -/
theorem older_save_lands_last :
    ¬ ∀ writers : Writers Stored, (system Json.plain none none none none).Reachable writers →
      Kept Json.plain writers := by
  intro claim
  have run : ∃ writers : Writers Stored,
      (system Json.plain none none none none).Reaches System.Any
        (launch Json.plain none none none none) writers ∧
      writers.calls ≠ [] ∧ writers.Quiet ∧ writers.failed = false ∧
        writers.state.saved.preset = .quality ∧
        (load Json.plain writers.file).map Settings.preset = some .fast :=
    System.exists_of_replay
      [.update (.setRate .hz96000), .update (.setPreset .quality), .stage 1, .install 1, .stage 0,
        .install 0] (by decide)
  obtain ⟨writers, run, called, quiet, fine, saved, file⟩ := run
  have kept := claim writers run called quiet fine
  rw [kept, Option.map_some, saved] at file
  cases file

end Writers

end Stemd.Preferences
