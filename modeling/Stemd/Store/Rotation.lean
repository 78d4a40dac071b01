import Stemd.Semantics.Stable
import Stemd.Store.Idle

/-! Whether a publish rotates out its own entry.

Rule 2 spares the entry used last. A new entry is stamped before its publish holds the lock,
and others can be used until rule 2 reads their last uses: those used later stay before it. -/

set_option autoImplicit false

namespace Stemd.Store

open Stemd.Semantics

variable {Key : Type}

/-- The entries used after one, as last uses have been read: later than it, or at once with
it and read after it. -/
def readLater (own : Nat) (read : List (Nat × Nat)) : List Nat :=
  (read.filter fun other => ∃ mine ∈ read, mine.2 = own ∧
    (mine.1 < other.1 ∨ mine.1 = other.1 ∧ [mine, other].Sublist read)).map (·.2)

def Cache.usedLater (cache : Cache Key) (own : Nat) : List Nat :=
  match cache.sweep with
  | .rotating read _ _ => readLater own read
  | _ => []

def Publishing.entry : Publishing Key → Option Nat
  | .inserting entry | .capping entry => some entry
  | _ => none

theorem readLater_perm {read : List (Nat × Nat)} {own : Nat} {front back : List Nat}
    (nodup : (read.map (·.2)).Nodup) (order : lruOrder read = front ++ own :: back) :
    (readLater own read).Perm back := by
  let earlier : Nat × Nat → Nat × Nat → Prop := fun one other => one.1 ≤ other.1
  have total : Std.Total earlier := ⟨fun one other => Nat.le_total one.1 other.1⟩
  have trans : IsTrans (Nat × Nat) earlier := ⟨fun _ _ _ first second => first.trans second⟩
  obtain ⟨before, rest, split, rfl, same⟩ := List.map_eq_append_iff.mp order
  obtain ⟨mine, after, rfl, rfl, rfl⟩ := List.map_eq_cons_iff.mp same
  have once : read.Nodup := nodup.of_map _
  have here : mine ∈ read := (List.perm_insertionSort earlier read).subset (by simp [earlier, split])
  refine List.Perm.map _ ((List.perm_ext_iff_of_nodup (once.filter _) ?_).mpr fun other => ?_)
  · have sorted : (read.insertionSort earlier).Nodup :=
      (List.perm_insertionSort earlier read).symm.nodup once
    rw [split] at sorted
    exact (List.nodup_cons.mp (List.nodup_append.mp sorted).2.1).2
  · rw [mem_after_insertionSort once split, List.mem_filter, decide_eq_true_eq]
    refine and_congr_right fun _ => ⟨?_, fun later => ⟨mine, here, rfl, ?_⟩⟩
    · rintro ⟨mine', here', own, later⟩
      cases List.inj_on_of_nodup_map nodup here' here own
      rcases later with above | ⟨equal, pair⟩
      · exact .inl (Nat.not_le_of_lt above)
      · exact .inr ⟨Nat.le_of_eq equal, pair⟩
    · rcases later with above | ⟨below, pair⟩
      · exact .inl (Nat.lt_of_not_le above)
      · rcases Nat.lt_or_eq_of_le below with above | equal
        · exact .inl above
        · exact .inr ⟨equal, pair⟩

def Sweep.Covers (own : Nat) : Sweep → Prop
  | .reading todo read => own ∈ read.map (·.2) ++ todo
  | .rotating read _ _ | .removing _ (.rotating read _ _) =>
      own ∈ read.map (·.2) ∧ (read.map (·.2)).Nodup
  | _ => False

def Capping (cache : Cache Key) : Prop :=
  ∀ own, cache.publishing = .capping own → cache.sweep.Covers own

theorem Capping.not_free {cache : Cache Key} {own : Nat} (capping : Capping cache)
    (here : cache.publishing = .capping own) (uncovered : ¬ cache.sweep.Covers own) : False :=
  uncovered (capping own here)

theorem Capping.released (cache : Cache Key) : Capping cache.release := fun own is => by
  rcases cache.release_publishing with same | ⟨-, idle⟩
  · unfold Cache.release at is
    split at is
    · cases is
    · rename_i other
      exact (other own is).elim
  · cases idle.symm.trans is

theorem Capping.publishes [DecidableEq Key] {cache after : Cache Key} {step : PublishStep}
    (publishes : Publishes cache step after) : Capping after := by
  cases publishes with
  | inserted entry order after here free iterates caps =>
      cases caps with
      | fits fits => exact .released _
      | exceeds exceeds =>
          intro own is
          cases is
          exact iterates.symm.subset (List.mem_append_right _ (List.mem_singleton.mpr rfl))
  | _ => exact fun _ is => by cases is

theorem Capping.sweeps [DecidableEq Key] {cache after : Cache Key} {step : SweepStep}
    (capping : Capping cache) (sound : Sound cache) (sweeps : Sweeps cache step after) :
    Capping after := by
  have swept := sound.swept
  cases sweeps with
  | read entry todo read here =>
      intro own is
      have covers := capping own is
      rw [here] at covers
      simpa [Sweep.Covers, or_assoc] using covers
  | sorted read here =>
      intro own is
      have covers := capping own is
      rw [here] at covers swept
      simp only [Sweep.Covers, List.append_nil] at covers
      have perm := swept.1
      rw [List.append_nil] at perm
      exact ⟨covers, perm.symm.nodup sound.nodup⟩
  | rotated read entry victims total here exceeds =>
      intro own is
      have covers := capping own is
      rw [here] at covers
      exact covers
  | unlinked entry rest name here => exact capping
  | removed entry rest here _ | failed entry rest here =>
      intro own is
      have covers := capping own is
      rw [here] at covers
      cases rest with
      | rotating read victims total => exact covers
      | ageing _ _ | clearing _ => exact covers.elim
  | released read victims total here enough => exact .released cache
  | aged now order after here iterates caps =>
      cases caps with
      | fits fits => exact .released cache
      | exceeds exceeds =>
          exact fun own is => (capping.not_free is (by rw [here]; exact id)).elim
  | weighing _ _ _ here | kept _ _ _ _ here | condemned _ _ _ _ here _ | reaped _ _ _ here
  | emptied _ _ here | cleared here =>
      exact fun own is => (capping.not_free is (by rw [here]; exact id)).elim

theorem Capping.move [DecidableEq Key] {cache after : Cache Key} {event : Event Key}
    (capping : Capping cache) (sound : Sound cache) (move : Move cache event after) :
    Capping after := by
  cases move with
  | publish key shipped idle => exact fun _ is => by cases is
  | publisher publishes => exact .publishes publishes
  | sweeper sweeps => exact capping.sweeps sound sweeps
  | caps order after free iterates caps =>
      cases caps with
      | fits fits => exact .released cache
      | exceeds exceeds =>
          exact fun own is => (capping.not_free is (by rw [free]; exact id)).elim
  | ages _ free _ | clear _ free _ =>
      exact fun own is => (capping.not_free is (by rw [free]; exact id)).elim
  | getter caller here gets =>
      cases gets with
      | hit _ _ held _ | touched _ _ held =>
          exact fun own is => (capping.not_free is (by rw [held]; exact id)).elim
      | _ => exact capping
  | get _ | fetch _ _ _ | tick => exact capping

theorem bytes_append (cache : Cache Key) (entries rest : List Nat) :
    cache.bytes (entries ++ rest) = cache.bytes entries + cache.bytes rest := by
  simp [Cache.bytes]

theorem bytes_le_of_mem {cache : Cache Key} {entry : Nat} {entries : List Nat}
    (member : entry ∈ entries) : (cache.heap entry).bytes ≤ cache.bytes entries := by
  obtain ⟨front, back, rfl⟩ := List.append_of_mem member
  rw [bytes_append, bytes_cons]
  omega

/-- Where rule 2 stops: the entry is still there exactly if what was used later fits with it. -/
theorem rotation_spares_iff {cache : Cache Key} {read : List (Nat × Nat)} {victims : List Nat}
    {total own : Nat} (sound : Sound cache) (here : cache.sweep = .rotating read victims total)
    (covers : cache.sweep.Covers own) (enough : total ≤ cache.maxBytes ∨ victims = []) :
    (own ∈ cache.entries ∧ (cache.heap own).evicted = false ∧
      (cache.totalBytes ≤ cache.maxBytes ∨ cache.entries = [own])) ↔
        readLater own read = [] ∨
          (cache.heap own).bytes + cache.bytes (readLater own read) ≤ cache.maxBytes := by
  have alive := sound.alive fun _ _ => by rw [here]; exact id
  have swept := sound.swept
  rw [here] at swept covers
  obtain ⟨dropped, last, order, perm, rfl, gone, exceeds⟩ := swept
  have among : own ∈ lruOrder read := (lruOrder_perm read).symm.subset covers.1
  rw [order] at among
  rcases List.mem_append.mp among with out | left
  · -- What was used after an entry that is out is at least the last one out and all that is left.
    obtain ⟨before, after, rfl⟩ := List.append_of_mem out
    have later := readLater_perm covers.2 (by rw [order, List.append_assoc, List.cons_append])
    refine iff_of_false (fun stays => ?_) (not_or.mpr ⟨fun none => ?_, ?_⟩)
    · exact Bool.false_ne_true (stays.2.1.symm.trans (gone own out).2)
    · rw [none] at later
      simpa using later.length_eq
    · obtain ⟨final, is⟩ : ∃ final, (own :: after).getLast? = some final :=
        ⟨_, List.getLast?_eq_some_getLast (List.cons_ne_nil own after)⟩
      have outweighs := exceeds final (by
        rw [List.getLast?_append_of_ne_nil _ (List.cons_ne_nil own after), is]
        rfl)
      have member : (cache.heap final).bytes ≤ cache.bytes (own :: after) :=
        bytes_le_of_mem (List.mem_of_getLast? is)
      rw [bytes_perm cache later, bytes_append, ← bytes_perm cache perm]
      rw [bytes_cons] at member
      unfold Cache.totalBytes at outweighs
      omega
  · obtain ⟨before, after, split⟩ := List.append_of_mem left
    have order' : lruOrder read = (dropped ++ before) ++ own :: after := by
      rw [order, split, List.append_assoc]
    have later := readLater_perm covers.2 order'
    have inside : own ∈ cache.entries := perm.symm.subset left
    have weight : cache.totalBytes =
        cache.bytes before + ((cache.heap own).bytes + cache.bytes after) := by
      rw [Cache.totalBytes, bytes_perm cache perm, split, bytes_append, bytes_cons]
    refine iff_of_true ⟨inside, alive own inside, ?_⟩ ?_
    · refine enough.imp id fun none => ?_
      subst none
      have only : cache.entries = [last] := List.perm_singleton.mp perm
      have same : own = last := by simpa [only] using inside
      rw [only, same]
    · rcases enough with fits | none
      · refine .inr ?_
        rw [bytes_perm cache later]
        omega
      · subst none
        have short := congrArg List.length split
        simp only [List.nil_append, List.length_append, List.length_cons, List.length_nil] at short
        have ends : after = [] := List.length_eq_zero_iff.mp (by omega)
        exact .inl (ends ▸ later).eq_nil

theorem Publishing.not_idle {publishing : Publishing Key} {own : Nat}
    (holds : publishing.entry = some own) : publishing ≠ .idle := by
  rintro rfl
  cases holds

theorem capping_of_release {cache : Cache Key} {own : Nat}
    (holds : cache.publishing.entry = some own) (idle : cache.release.publishing = .idle) :
    cache.publishing = .capping own := by
  rcases cache.release_publishing with same | ⟨⟨entry, capping⟩, -⟩
  · exact (Publishing.not_idle holds (same ▸ idle)).elim
  · rw [capping] at holds ⊢
    cases holds
    rfl

/-- How a publish lets go of the lock: with nothing to rotate out, or at the end of rule 2. -/
inductive Releases (cache : Cache Key) (own : Nat) [DecidableEq Key] : Cache Key → Prop where
  | fits (here : cache.publishing = .inserting own) (free : cache.sweep = .free)
      (fits : (cache.indexed own).totalBytes ≤ cache.maxBytes) :
      Releases cache own (cache.indexed own).release
  | rotated (read : List (Nat × Nat)) (victims : List Nat) (total : Nat)
      (here : cache.publishing = .capping own) (sweep : cache.sweep = .rotating read victims total)
      (enough : total ≤ cache.maxBytes ∨ victims = []) : Releases cache own cache.release

theorem Capping.releases [DecidableEq Key] {cache after : Cache Key} {event : Event Key}
    {own : Nat} (capping : Capping cache) (move : Move cache event after)
    (holds : cache.publishing.entry = some own) (idle : after.publishing = .idle) :
    Releases cache own after := by
  have busy := Publishing.not_idle holds
  cases move with
  | publish key shipped ready => cases idle
  | publisher publishes =>
      cases publishes with
      | inserted entry order after here free iterates caps =>
          rw [here] at holds
          cases holds
          cases caps with
          | fits fits => exact .fits here free fits
          | exceeds exceeds => cases idle
      | _ => cases idle
  | sweeper sweeps =>
      cases sweeps with
      | released read victims total here enough =>
          exact .rotated read victims total (capping_of_release holds idle) here enough
      | aged now order after here iterates caps =>
          cases caps with
          | fits fits =>
              exact (capping.not_free (capping_of_release holds idle) (by rw [here]; exact id)).elim
          | exceeds exceeds => exact (busy idle).elim
      | _ => exact (busy idle).elim
  | caps order after free iterates caps =>
      cases caps with
      | fits fits =>
          exact (capping.not_free (capping_of_release holds idle) (by rw [free]; exact id)).elim
      | exceeds exceeds => exact (busy idle).elim
  | getter caller here gets => cases gets <;> exact (busy idle).elim
  | _ => exact (busy idle).elim

section runs

variable [DecidableEq Key] [Inhabited Key] {maxBytes unfetchedTtl : Nat}

theorem capping_of_reaches {cache : Cache Key}
    (run : (Cache.system maxBytes unfetchedTtl).Reachable cache) : Capping cache :=
  run.invariant (fun _ is => by cases is)
    fun _ _ _ before capping _ done => capping.move (sound_of_reaches before) (move_of_step done)

/-- When a publish lets go of the lock, its entry is in the index and the store fits, or holds
nothing else, exactly if there is room for it with all that was used later. -/
theorem publish_spares_own_iff {cache after : Cache Key} {event : Event Key} {own : Nat}
    (run : (Cache.system maxBytes unfetchedTtl).Reachable cache)
    (publishes : cache.publishing.entry = some own) (done : cache.step event = some after)
    (released : after.publishing = .idle) :
    (own ∈ after.entries ∧ (after.heap own).evicted = false ∧
      (after.totalBytes ≤ maxBytes ∨ after.entries = [own])) ↔
        cache.usedLater own = [] ∨
          (cache.heap own).bytes + cache.bytes (cache.usedLater own) ≤ maxBytes := by
  have sound := sound_of_reaches run
  have capping := capping_of_reaches run
  have settings := (settings_of_reaches run).1
  have releases := capping.releases (move_of_step done) publishes released
  cases releases with
  | fits here free fits =>
      refine iff_of_true ⟨List.mem_append_right _ (List.mem_singleton.mpr rfl),
        (sound.pending own here).2.2, .inl (settings ▸ fits)⟩ (.inl ?_)
      rw [Cache.usedLater, free]
  | rotated read victims total here sweep enough =>
      have covers := capping own here
      rw [Cache.usedLater, sweep, ← settings]
      have spares := rotation_spares_iff sound sweep covers enough
      exact spares

end runs

/-- With nobody using anything meanwhile, the older entry makes room. -/
theorem new_entry_outlives_old : ∃ cache after : Cache Nat,
    cache.step (.sweeper .rotated) = some after ∧ cache.made = 2 ∧
      1 ∈ after.entries ∧ (after.heap 1).evicted = false ∧
        (after.totalBytes ≤ 5 ∨ after.entries = [1]) := by
  have reached : ∃ cache : Cache Nat, (Cache.system 5 1).Reachable cache ∧
      cache.publishing.entry = some 1 ∧ cache.made = 2 ∧ cache.usedLater 1 = [] ∧
        (cache.step (.sweeper .rotated)).any
          (fun after => decide (after.publishing = .idle)) = true :=
    System.exists_of_replay (published 7 vocals ++ .publisher (.inserted [0]) ::
      published 8 vocals ++ [.publisher (.inserted [0, 1]), .sweeper .read, .sweeper .read,
        .sweeper .sorted, .sweeper .rotated, .sweeper (.unlinked "vocals.flac"),
        .sweeper .removed]) (by decide)
  obtain ⟨cache, run, publishes, made, later, found⟩ := reached
  obtain ⟨after, done, idle⟩ := (Option.any_eq_true _ _).mp found
  exact ⟨cache, after, done, made,
    (publish_spares_own_iff run publishes done (of_decide_eq_true idle)).mpr (.inl later)⟩

/-- A hit on the old entry, once the new one has its stamp, has the new one rotated out. -/
theorem hit_rotates_new_entry_out : ∃ cache after : Cache Nat,
    (Cache.system 5 1).Reachable cache ∧ cache.publishing = .capping 1 ∧
      cache.step (.sweeper .rotated) = some after ∧ after.publishing = .idle ∧
        1 ∉ after.entries ∧ (after.heap 1).evicted = true := by
  have reached : ∃ cache : Cache Nat, (Cache.system 5 1).Reachable cache ∧
      cache.publishing = .capping 1 ∧
        (cache.step (.sweeper .rotated)).any (fun after => decide (after.publishing = .idle ∧
          1 ∉ after.entries ∧ (after.heap 1).evicted = true)) = true :=
    System.exists_of_replay (published 7 vocals ++ .publisher (.inserted [0]) ::
      published 8 vocals ++ [.tick, .get 7, .getter 0, .getter 0, .publisher (.inserted [0, 1]),
        .sweeper .read, .sweeper .read, .sweeper .sorted, .sweeper .rotated,
        .sweeper (.unlinked "vocals.flac"), .sweeper .removed]) (by decide)
  obtain ⟨cache, run, capping, found⟩ := reached
  obtain ⟨after, done, gone⟩ := (Option.any_eq_true _ _).mp found
  exact ⟨cache, after, run, capping, done, of_decide_eq_true gone⟩

end Stemd.Store
