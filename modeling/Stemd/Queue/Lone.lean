import Stemd.Queue.Install

/-! The queue with one call to `install` at a time.

Nothing is superseded then, and what the caller hears tells it what the worker holds. -/

set_option autoImplicit false

namespace Stemd.Queue

open Stemd.Core
open Stemd.Semantics

variable {Id Mix Sep : Type}

structure Inner.Steady (inner : Inner Id Mix Sep) (held : Sep) : Prop where
  unstaged : inner.incoming = none
  untaken : inner.worker.install = none
  separator : inner.separator = held

def Reply.leaves (held build : Sep) : Reply Sep → Sep
  | .loaded _ => build
  | _ => held

inductive Inner.Installing (inner : Inner Id Mix Sep) (held build : Sep) (channel : Nat) :
    Prop where
  | staged (staging : inner.incoming = some ⟨build, channel⟩)
      (untaken : inner.worker.install = none) (open' : inner.channels[channel]? = some none)
      (separator : inner.separator = held)
  | taken (unstaged : inner.incoming = none) (taken : inner.worker.install = some ⟨build, channel⟩)
      (open' : inner.channels[channel]? = some none) (separator : inner.separator = held)
  | answered (reply : Reply Sep) (answer : inner.channels[channel]? = some (some reply))
      (steady : inner.Steady (reply.leaves held build))

/-- What others do leaves an install to those it is between. -/
structure Inner.Spares (before after : Inner Id Mix Sep) : Prop where
  steady : ∀ held, before.Steady held → after.Steady held
  installing : ∀ held build channel, before.Installing held build channel →
    after.Installing held build channel

theorem Inner.Spares.refl (inner : Inner Id Mix Sep) : Spares inner inner :=
  ⟨fun _ steady => steady, fun _ _ _ installing => installing⟩

theorem Inner.Aside.spares {before after : Inner Id Mix Sep} (aside : before.Aside after) :
    before.Spares after := by
  have steady : ∀ held, before.Steady held → after.Steady held := fun held steady =>
    ⟨aside.incoming.trans steady.unstaged, aside.install.trans steady.untaken,
      aside.separator.trans steady.separator⟩
  refine ⟨steady, fun held build channel installing => ?_⟩
  cases installing with
  | staged staging untaken open' separator =>
      exact .staged (aside.incoming.trans staging) (aside.install.trans untaken)
        (aside.channels ▸ open') (aside.separator.trans separator)
  | taken unstaged taken open' separator =>
      exact .taken (aside.incoming.trans unstaged) (aside.install.trans taken)
        (aside.channels ▸ open') (aside.separator.trans separator)
  | answered reply answer quiet =>
      exact .answered reply (aside.channels ▸ answer) (steady _ quiet)

variable [DecidableEq Id]

theorem Inner.Serves.spares {before after : Inner Id Mix Sep} {action : Action Id Mix Sep}
    (serves : before.Serves action after) : before.Spares after := by
  -- A worker with an install of its own has the only one there is.
  have busy : ∀ {staged : Staged Sep}, before.worker.install = some staged →
      ∀ {held}, ¬ before.Steady held := fun mine _ steady => by
    cases steady.untaken.symm.trans mine
  have only : ∀ {staged : Staged Sep}, before.worker.install = some staged →
      ∀ {held build channel}, before.Installing held build channel →
        staged = ⟨build, channel⟩ ∧ before.incoming = none ∧
          before.channels[channel]? = some none ∧ before.separator = held := by
    intro staged mine held build channel installing
    cases installing with
    | staged staging untaken => cases untaken.symm.trans mine
    | taken unstaged taken open' separator =>
        exact ⟨Option.some.inj (mine.symm.trans taken), unstaged, open', separator⟩
    | answered reply answer quiet => cases busy mine quiet
  cases serves with
  | aside aside => exact aside.spares
  | taken staged looking open' staging =>
      refine ⟨fun held steady => ?_, fun held build channel installing => ?_⟩
      · cases steady.unstaged.symm.trans staging
      · cases installing with
        | staged mine untaken open' separator =>
            cases staging.symm.trans mine
            exact .taken rfl rfl open' separator
        | taken unstaged => cases unstaged.symm.trans staging
        | answered reply answer quiet => cases quiet.unstaged.symm.trans staging
  | loaded staged building =>
      have mine : before.worker.install = some staged := by rw [building]; rfl
      refine ⟨fun held steady => absurd steady (busy mine), fun held build channel installing => ?_⟩
      obtain ⟨rfl, unstaged, open', separator⟩ := only mine installing
      exact .taken unstaged rfl open' separator
  | failed staged building =>
      have mine : before.worker.install = some staged := by rw [building]; rfl
      refine ⟨fun held steady => absurd steady (busy mine), fun held build channel installing => ?_⟩
      obtain ⟨rfl, unstaged, open', separator⟩ := only mine installing
      exact .answered .failed (Inner.send_answers _ open') ⟨unstaged, rfl, separator⟩
  | panicked staged building =>
      have mine : before.worker.install = some staged := by rw [building]; rfl
      refine ⟨fun held steady => absurd steady (busy mine), fun held build channel installing => ?_⟩
      obtain ⟨rfl, unstaged, open', separator⟩ := only mine installing
      exact .answered .panicked (Inner.send_answers _ open') ⟨unstaged, rfl, separator⟩
  | answered staged answering =>
      have mine : before.worker.install = some staged := by rw [answering]; rfl
      refine ⟨fun held steady => absurd steady (busy mine), fun held build channel installing => ?_⟩
      obtain ⟨rfl, unstaged, open', -⟩ := only mine installing
      exact .answered (.loaded build) (Inner.send_answers _ open') ⟨unstaged, rfl, rfl⟩

def Call.installs : Call Id Sep → Bool
  | .stage _ | .supersede _ _ | .installNotify _ | .receive _ | .installReturned _ => true
  | _ => false

theorem Call.advance_installs {late : Bool} {inner after : Inner Id Mix Sep}
    {call next : Call Id Sep} (done : call.advance late inner = some (after, next)) :
    next.installs = call.installs := by
  cases call with
  | cancelPending id =>
      cases done
      split <;> rfl
  | supersede channel superseded => cases superseded <;> cases done <;> rfl
  | stage _ | receive _ | takeHandle =>
      simp only [advance] at done
      split at done <;> cases done <;> rfl
  | polling =>
      simp only [advance] at done
      split at done
      · cases done
        rfl
      · split at done <;> cases done
        rfl
  | cancelRunning _ | installNotify _ | shut | letGo | flagRunning | stopNotify =>
      cases done
      rfl
  | cancelReturned _ _ | installReturned _ | stopReturned _ => cases done

theorem Call.advance_spares {late : Bool} {inner after : Inner Id Mix Sep}
    {call next : Call Id Sep} (other : call.installs = false)
    (done : call.advance late inner = some (after, next)) : inner.Spares after := by
  cases advances_of_advance done with
  | aside aside => exact aside.spares
  | shut =>
      refine ⟨fun held steady => ⟨steady.1, steady.2, steady.3⟩,
        fun held build channel installing => ?_⟩
      cases installing with
      | staged staging untaken open' separator => exact .staged staging untaken open' separator
      | taken unstaged taken open' separator => exact .taken unstaged taken open' separator
      | answered reply answer quiet => exact .answered reply answer ⟨quiet.1, quiet.2, quiet.3⟩
  | letGo staged staging =>
      refine ⟨fun held steady => ?_, fun held build channel installing => ?_⟩
      · cases steady.unstaged.symm.trans staging
      · cases installing with
        | staged mine untaken open' separator =>
            cases staging.symm.trans mine
            exact .answered .shuttingDown (Inner.send_answers _ open') ⟨rfl, untaken, separator⟩
        | taken unstaged => cases unstaged.symm.trans staging
        | answered reply answer quiet => cases quiet.unstaged.symm.trans staging
  | nobodyLetGo none => exact .refl inner
  | _ => cases other

def Call.Fits (inner : Inner Id Mix Sep) (held preset : Sep) : Call Id Sep → Prop
  | .stage build => build = preset ∧ inner.Steady held
  | .supersede channel superseded => superseded = none ∧ inner.Installing held preset channel
  | .installNotify channel | .receive channel => inner.Installing held preset channel
  | .installReturned reply => inner.Steady (reply.leaves held preset)
  | _ => False

omit [DecidableEq Id] in
theorem Call.Fits.spared {before after : Inner Id Mix Sep} {held preset : Sep}
    {call : Call Id Sep} (fits : call.Fits before held preset) (spares : before.Spares after) :
    call.Fits after held preset := by
  cases call with
  | stage build => exact ⟨fits.1, spares.steady held fits.2⟩
  | supersede channel superseded => exact ⟨fits.1, spares.installing _ _ _ fits.2⟩
  | installNotify channel | receive channel => exact spares.installing _ _ _ fits
  | installReturned reply => exact spares.steady _ fits
  | _ => exact fits

theorem Call.Fits.advance {late : Bool} {inner after : Inner Id Mix Sep} {held preset : Sep}
    {call next : Call Id Sep} (fits : call.Fits inner held preset)
    (done : call.advance late inner = some (after, next)) : next.Fits after held preset := by
  cases advances_of_advance done with
  | aside aside outside outside' other entered =>
      cases call with
      | stage build => exact absurd rfl (entered build)
      | installReturned reply => cases done
      | supersede _ _ | installNotify _ | receive _ => cases outside
      | _ => cases fits
  | staged build open' =>
      obtain ⟨rfl, steady⟩ := fits
      exact ⟨steady.unstaged, .staged rfl steady.untaken (by simp) steady.separator⟩
  | refused build stopped => exact fits.2
  | superseded channel staged => cases fits.1
  | alone channel => exact fits.2
  | notified channel => exact inner.notify_aside.spares.installing _ _ _ fits
  | received channel reply answer =>
      cases fits with
      | staged staging untaken open' separator => cases answer.symm.trans open'
      | taken unstaged taken open' separator => cases answer.symm.trans open'
      | answered given answered steady =>
          cases answer.symm.trans answered
          exact steady
  | shut | letGo _ _ | nobodyLetGo _ => cases fits

end Stemd.Queue
