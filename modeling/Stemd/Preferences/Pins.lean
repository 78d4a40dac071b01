import Mathlib.Data.List.Basic
import Mathlib.Data.List.Induction
import Stemd.Preferences.Store

/-! Flags beside the settings file.

A run is compared with one that was given no flags. What is saved never tells them apart;
what is in force keeps to a flag unless the window leads the rate away from it and back. -/

set_option autoImplicit false

namespace Stemd.Preferences

open Stemd.Core
open Stemd.Models

variable {Text : Type}

structure SettingsStore (Text : Type) where
  state : State
  pinned : Pinned
  written : List Text
  deriving DecidableEq

namespace SettingsStore

def opened (json : Json Text) (file : Option Text) : SettingsStore Text :=
  ⟨State.opened json file, ⟨false, false⟩, []⟩

def pin (store : SettingsStore Text) (format : Option StemFormat) (rate : Option OutputRate) :
    SettingsStore Text :=
  { store with
    state := store.state.pin format rate
    pinned := ⟨store.pinned.format || format.isSome, store.pinned.rate || rate.isSome⟩ }

def write (json : Json Text) (store : SettingsStore Text) (change : Settings → Settings) :
    SettingsStore Text :=
  let state := store.state.change change
  { store with state := state, written := store.written ++ [textOf json state.saved] }

def set (json : Json Text) (store : SettingsStore Text) (setter : Setter) : SettingsStore Text :=
  if store.pinned.blocks setter then store else store.write json setter.apply

def run (json : Json Text) (store : SettingsStore Text) (calls : List Setter) :
    SettingsStore Text :=
  calls.foldl (set json) store

end SettingsStore

def pinnedRun (json : Json Text) (file : Option Text) (format : Option StemFormat)
    (rate : Option OutputRate) (calls : List Setter) : SettingsStore Text :=
  ((SettingsStore.opened json file).pin format rate).run json calls

def unpinned (format : Option StemFormat) (rate : Option OutputRate) (calls : List Setter) :
    List Setter :=
  calls.filter fun call => !(Pinned.mk format.isSome rate.isSome).blocks call

namespace SettingsStore

variable {json : Json Text}

@[simp] theorem set_pinned (store : SettingsStore Text) (setter : Setter) :
    (store.set json setter).pinned = store.pinned := by
  unfold set
  split <;> rfl

theorem run_pinned (store : SettingsStore Text) (calls : List Setter) :
    (store.run json calls).pinned = store.pinned := by
  induction calls generalizing store with
  | nil => rfl
  | cons call rest ih => exact (ih _).trans (store.set_pinned call)

theorem run_concat (store : SettingsStore Text) (calls : List Setter) (call : Setter) :
    store.run json (calls ++ [call]) = (store.run json calls).set json call :=
  List.foldl_concat ..

structure Alike (left right : SettingsStore Text) : Prop where
  saved : left.state.saved = right.state.saved
  written : left.written = right.written

theorem Alike.write {left right : SettingsStore Text} (alike : Alike left right)
    (change : Settings → Settings) : Alike (left.write json change) (right.write json change) := by
  obtain ⟨saved, written⟩ := alike
  constructor <;> simp [SettingsStore.write, State.change, saved, written]

theorem set_reconciled {store : SettingsStore Text} (reconciled : store.state.Reconciled)
    (setter : Setter) : (store.set json setter).state.Reconciled := by
  unfold set
  split
  · exact reconciled
  · exact State.change_reconciled _ _

theorem run_reconciled {store : SettingsStore Text} (reconciled : store.state.Reconciled)
    (calls : List Setter) : (store.run json calls).state.Reconciled := by
  induction calls generalizing store with
  | nil => exact reconciled
  | cons call rest ih => exact ih (set_reconciled reconciled call)

theorem Alike.run {left right : SettingsStore Text} (alike : Alike left right)
    (free : right.pinned = ⟨false, false⟩) (calls : List Setter) :
    Alike (left.run json calls)
      (right.run json (calls.filter fun call => !left.pinned.blocks call)) := by
  induction calls generalizing left right with
  | nil => exact alike
  | cons call rest ih =>
      have next : ∀ right', Alike (left.set json call) right' → right'.pinned = ⟨false, false⟩ →
          Alike ((left.set json call).run json rest)
            (right'.run json (rest.filter fun call => !left.pinned.blocks call)) := by
        intro right' alike' free'
        rw [← left.set_pinned call]
        exact ih alike' free'
      cases blocked : left.pinned.blocks call with
      | true =>
          have same : left.set json call = left := if_pos blocked
          rw [List.filter_cons_of_neg (by simp [blocked])]
          exact next right (same.symm ▸ alike) free
      | false =>
          have changed : left.set json call = left.write json call.apply :=
            if_neg (by simp [blocked])
          have changed' : right.set json call = right.write json call.apply := by
            refine if_neg ?_
            rw [free]
            cases call <;> simp [Pinned.blocks]
          rw [List.filter_cons_of_pos (by simp [blocked])]
          refine next (right.set json call) ?_ ((right.set_pinned call).trans free)
          rw [changed, changed']
          exact alike.write call.apply

end SettingsStore

theorem pinnedRun_reconciled (json : Json Text) (file : Option Text) (format : Option StemFormat)
    (rate : Option OutputRate) (calls : List Setter) :
    (pinnedRun json file format rate calls).state.Reconciled :=
  SettingsStore.run_reconciled
    ⟨(State.opened_reconciled json file).saved, Settings.reconcile_reconciled _⟩ calls

/-- A flag never reaches the settings file, and what is saved and what is in force are pairs
that exist, in every state of every run. -/
theorem flags_are_not_saved (json : Json Text) (file : Option Text) (format : Option StemFormat)
    (rate : Option OutputRate) (calls : List Setter) :
    (pinnedRun json file format rate calls).state.saved =
        (pinnedRun json file none none (unpinned format rate calls)).state.saved ∧
      (pinnedRun json file format rate calls).written =
        (pinnedRun json file none none (unpinned format rate calls)).written ∧
      (pinnedRun json file format rate calls).state.Reconciled := by
  let left := (SettingsStore.opened json file).pin format rate
  let right := (SettingsStore.opened json file).pin none none
  have start : SettingsStore.Alike left right := ⟨rfl, rfl⟩
  have alike : SettingsStore.Alike (left.run json calls) (right.run json _) := start.run rfl calls
  have fields : left.pinned = ⟨format.isSome, rate.isSome⟩ := rfl
  rw [fields] at alike
  exact ⟨alike.saved, alike.written, pinnedRun_reconciled json file format rate calls⟩

def Setter.format : Setter → Option StemFormat
  | .setFormat format => some format
  | _ => none

/-- The formats in force one after another: the flag's, or the file's and then what the
window chooses. -/
def formatsInForce (json : Json Text) (file : Option Text) (format : Option StemFormat)
    (calls : List Setter) : List StemFormat :=
  match format with
  | some format => [format]
  | none => (State.opened json file).saved.format :: calls.filterMap Setter.format

/-- The flags are in force, the rate as far as the format can carry it. -/
structure InForce (format : Option StemFormat) (rate : Option OutputRate) (current : Settings) :
    Prop where
  format : ∀ given ∈ format, current.format = given
  rate : ∀ given ∈ rate, current.format.carries given = true → current.rate = given

section InForce

variable {json : Json Text} {file : Option Text} {format : Option StemFormat}
  {rate : Option OutputRate} {calls : List Setter}

theorem pinnedRun_concat (calls : List Setter) (call : Setter) :
    pinnedRun json file format rate (calls ++ [call]) =
      (pinnedRun json file format rate calls).set json call :=
  SettingsStore.run_concat _ _ _

theorem pinnedRun_pinned (calls : List Setter) :
    (pinnedRun json file format rate calls).pinned = ⟨format.isSome, rate.isSome⟩ :=
  SettingsStore.run_pinned _ _

theorem current_concat (calls : List Setter) (call : Setter) :
    (pinnedRun json file format rate (calls ++ [call])).state.current =
      if (Pinned.mk format.isSome rate.isSome).blocks call then
        (pinnedRun json file format rate calls).state.current
      else (call.apply (pinnedRun json file format rate calls).state.current).reconcile := by
  rw [pinnedRun_concat, SettingsStore.set, pinnedRun_pinned]
  split <;> rfl

theorem formatsInForce_concat (calls : List Setter) (call : Setter) :
    formatsInForce json file format (calls ++ [call]) =
      formatsInForce json file format calls ++
        (if format.isSome then none else call.format).toList := by
  cases format with
  | some given => simp [formatsInForce]
  | none => cases call <;> simp [formatsInForce, Setter.format]

theorem current_concat_format (calls : List Setter) (call : Setter) :
    (pinnedRun json file format rate (calls ++ [call])).state.current.format =
      if format.isSome then (pinnedRun json file format rate calls).state.current.format
      else call.format.getD (pinnedRun json file format rate calls).state.current.format := by
  rw [current_concat]
  cases call <;> cases format <;> cases rate <;>
    simp [Pinned.blocks, Setter.apply, Setter.format]

/-- The last of them is the one in force. -/
theorem current_format (calls : List Setter) :
    (formatsInForce json file format calls).getLast? =
      some (pinnedRun json file format rate calls).state.current.format := by
  induction calls using List.reverseRecOn with
  | nil =>
      have current : (pinnedRun json file format rate []).state.current.format =
        format.getD (State.opened json file).current.format := Settings.reconcile_format _
      rw [current]
      cases format <;> rfl
  | append_singleton calls call ih =>
      rw [formatsInForce_concat, current_concat_format]
      cases format with
      | some given => simpa using ih
      | none =>
          cases chosen : call.format with
          | none => simpa [chosen] using ih
          | some format => simp

theorem rate_after_format {given : OutputRate} {formats : List StemFormat} {current : Settings}
    {chosen : StemFormat}
    (before : (∀ f ∈ formats, f.carries given = true) ∧ current.rate = given ∨
      (∃ f ∈ formats, f.carries given = false) ∧ given ≠ .hz48000 ∧ current.rate = .hz48000) :
    (∀ f ∈ formats ++ [chosen], f.carries given = true) ∧
        (Settings.reconcile { current with format := chosen }).rate = given ∨
      (∃ f ∈ formats ++ [chosen], f.carries given = false) ∧ given ≠ .hz48000 ∧
        (Settings.reconcile { current with format := chosen }).rate = .hz48000 := by
  rcases before with ⟨all, rfl⟩ | ⟨⟨f, member, lost⟩, other, gone⟩
  · by_cases reconciled : Settings.Reconciled { current with format := chosen }
    · refine .inl ⟨fun f member => ?_, by rw [Settings.reconcile_eq reconciled]⟩
      rcases List.mem_append.mp member with old | new
      · exact all f old
      · exact (List.mem_singleton.mp new).symm ▸ reconciled
    · obtain ⟨high, lowered⟩ := Settings.reconcile_rate_of_not reconciled
      have high : current.rate = .hz96000 := high
      exact .inr ⟨⟨chosen, by simp, Bool.eq_false_iff.mpr reconciled⟩, by simp [high], lowered⟩
  · have reconciled : Settings.Reconciled { current with format := chosen } := by
      rw [Settings.Reconciled, gone]
      cases chosen <;> rfl
    refine .inr ⟨⟨f, List.mem_append_left _ member, lost⟩, other, ?_⟩
    rw [Settings.reconcile_eq reconciled]
    exact gone

/-- A pinned rate is in force as long as every format so far has carried it. The first that
does not takes it away for good. -/
theorem current_rate (given : OutputRate) (calls : List Setter) :
    ((∀ chosen ∈ formatsInForce json file format calls, chosen.carries given = true) ∧
      (pinnedRun json file format (some given) calls).state.current.rate = given) ∨
    ((∃ chosen ∈ formatsInForce json file format calls, chosen.carries given = false) ∧
      given ≠ .hz48000 ∧
      (pinnedRun json file format (some given) calls).state.current.rate = .hz48000) := by
  induction calls using List.reverseRecOn with
  | nil =>
      let start : Settings := { (State.opened json file).current with
        format := format.getD (State.opened json file).current.format
        rate := given }
      have formats : formatsInForce json file format [] = [start.format] := by cases format <;> rfl
      have current : (pinnedRun json file format (some given) []).state.current =
        start.reconcile := rfl
      rw [formats, current]
      by_cases reconciled : start.Reconciled
      · exact .inl ⟨fun chosen only => (List.mem_singleton.mp only).symm ▸ reconciled,
          by rw [Settings.reconcile_eq reconciled]⟩
      · obtain ⟨high, lowered⟩ := Settings.reconcile_rate_of_not reconciled
        have high : given = .hz96000 := high
        exact .inr ⟨⟨_, List.mem_singleton_self _, Bool.eq_false_iff.mpr reconciled⟩,
          by simp [high], lowered⟩
  | append_singleton calls call ih =>
      have pair := (pinnedRun_reconciled json file format (some given) calls).current
      rw [formatsInForce_concat, current_concat]
      generalize (pinnedRun json file format (some given) calls).state.current = current at ih pair ⊢
      cases call with
      | setPreset preset =>
          have same : Settings.reconcile { current with preset := preset } =
            { current with preset := preset } := Settings.reconcile_eq pair
          simpa [Pinned.blocks, Setter.format, Setter.apply, same] using ih
      | setRate other => simpa [Pinned.blocks, Setter.format] using ih
      | setFormat chosen =>
          cases format with
          | some fixed => simpa [Pinned.blocks] using ih
          | none =>
              simp only [Pinned.blocks, Setter.format, Setter.apply, Option.isSome_none,
                Bool.false_eq_true, if_false, Option.toList_some]
              exact rate_after_format ih

/-- The flags are in force unless the rate has been led away, to a format that does not
carry it, before the one in force that does. -/
theorem inForce_iff (calls : List Setter) :
    InForce format rate (pinnedRun json file format rate calls).state.current ↔
      ∀ given ∈ rate, ∀ last ∈ (formatsInForce json file format calls).getLast?,
        last.carries given = true →
          ∀ chosen ∈ formatsInForce json file format calls, chosen.carries given = true := by
  have last : (formatsInForce json file format calls).getLast? =
    some (pinnedRun json file format rate calls).state.current.format := current_format calls
  constructor
  · rintro inForce given rfl chosen atEnd carries
    obtain rfl := Option.some.inj (last.symm.trans atEnd)
    rcases current_rate given calls with ⟨all, -⟩ | ⟨-, other, gone⟩
    · exact all
    · exact absurd ((inForce.rate given rfl carries).symm.trans gone) other
  · intro led
    constructor
    · rintro given rfl
      exact (Option.some.inj last).symm
    · rintro given rfl carries
      have all := led given rfl _ last carries
      rcases current_rate given calls with ⟨-, rate⟩ | ⟨⟨chosen, member, lost⟩, -⟩
      · exact rate
      · exact absurd ((all chosen member).symm.trans lost) (by decide)

/-- No format after one that does not carry the rate carries it. -/
def NeverBack (given : OutputRate) (formats : List StemFormat) : Prop :=
  formats.Pairwise fun before after => after.carries given = true → before.carries given = true

theorem neverBack_concat {given : OutputRate} {formats : List StemFormat} {last : StemFormat} :
    NeverBack given (formats ++ [last]) ↔ NeverBack given formats ∧
      (last.carries given = true → ∀ chosen ∈ formats, chosen.carries given = true) := by
  rw [NeverBack, List.pairwise_append]
  constructor
  · rintro ⟨front, -, across⟩
    exact ⟨front, fun carries f member => across f member last (List.mem_singleton_self _) carries⟩
  · rintro ⟨front, across⟩
    refine ⟨front, List.pairwise_singleton _ _, fun f member g only carries => ?_⟩
    obtain rfl := List.mem_singleton.mp only
    exact across carries f member

theorem NeverBack.getLast {given : OutputRate} {formats : List StemFormat}
    (never : NeverBack given formats) {last : StemFormat} (atEnd : last ∈ formats.getLast?)
    (carries : last.carries given = true) : ∀ chosen ∈ formats, chosen.carries given = true := by
  obtain ⟨front, rfl⟩ := List.getLast?_eq_some_iff.mp atEnd
  intro chosen member
  rcases List.mem_append.mp member with old | new
  · exact (neverBack_concat.mp never).2 carries chosen old
  · exact List.mem_singleton.mp new ▸ carries

theorem neverBack_append {given : OutputRate} {formats : List StemFormat}
    {next : Option StemFormat} :
    NeverBack given (formats ++ next.toList) ↔ NeverBack given formats ∧
      ∀ last ∈ (formats ++ next.toList).getLast?, last.carries given = true →
        ∀ chosen ∈ formats ++ next.toList, chosen.carries given = true := by
  constructor
  · intro never
    exact ⟨never.sublist (List.sublist_append_left _ _), fun _ atEnd => never.getLast atEnd⟩
  · rintro ⟨front, ending⟩
    cases next with
    | none => simpa using front
    | some last =>
        have atEnd : last ∈ (formats ++ [last]).getLast? := List.getLast?_concat
        exact neverBack_concat.mpr ⟨front, fun carries chosen member =>
          ending last atEnd carries chosen (List.mem_append_left _ member)⟩

/-- A pinned format is in force throughout, and a pinned rate whenever the format can carry
it, exactly if no format that can is chosen after one that cannot. -/
theorem inForce_throughout_iff (json : Json Text) (file : Option Text) (format : Option StemFormat)
    (rate : Option OutputRate) (calls : List Setter) :
    (∀ earlier, earlier <+: calls →
        InForce format rate (pinnedRun json file format rate earlier).state.current) ↔
      ∀ given ∈ rate, NeverBack given (formatsInForce json file format calls) := by
  induction calls using List.reverseRecOn with
  | nil =>
      refine iff_of_true (fun earlier within => ?_) fun given _ => ?_
      · obtain rfl := List.prefix_nil.mp within
        rw [inForce_iff]
        cases format <;> simp [formatsInForce]
      · cases format <;> simp [formatsInForce, NeverBack]
  | append_singleton calls call ih =>
      have splits : (∀ earlier, earlier <+: calls ++ [call] →
          InForce format rate (pinnedRun json file format rate earlier).state.current) ↔
            (∀ earlier, earlier <+: calls →
              InForce format rate (pinnedRun json file format rate earlier).state.current) ∧
            InForce format rate (pinnedRun json file format rate (calls ++ [call])).state.current := by
        simp only [List.prefix_concat_iff, or_imp, forall_and, forall_eq]
        exact and_comm
      rw [splits, ih, inForce_iff, formatsInForce_concat]
      simp only [neverBack_append, imp_and, forall_and]

end InForce

/-- To MP3, which has no 96 kHz mode, and back. -/
theorem rate_is_not_given_back :
    ¬ ∀ (json : Json Stored) (file : Option Stored) (format : Option StemFormat)
      (rate : Option OutputRate) (calls earlier : List Setter), earlier <+: calls →
        InForce format rate (pinnedRun json file format rate earlier).state.current := by
  intro kept
  have inForce := kept Json.plain none none (some .hz96000)
    [.setFormat .mp3, .setFormat .flac] _ List.prefix_rfl
  exact absurd (inForce.rate .hz96000 rfl rfl) (by decide)

end Stemd.Preferences
