import Mathlib.Data.List.Basic
import Stemd.Store.Sound

/-! What a publish has staged.

A staging directory is new when it is made, and nobody but its publish writes to it: once
all threads have written, every stem is in it and takes the space its content needs. -/

set_option autoImplicit false

namespace Stemd.Store

open Stemd.Semantics

variable {Key : Type}

def weight (shipped : List Shipped) : Nat := (shipped.map fun stem => stem.content.length).sum

def Publishing.staged : Publishing Key → Option (Key × Nat × List Shipped × List Shipped)
  | .writing key seq shipped todo false => some (key, seq, shipped, todo)
  | .installing key seq shipped | .replacing key seq shipped | .renaming key seq shipped =>
      some (key, seq, shipped, [])
  | _ => none

def Publishing.staging : Publishing Key → Option (Key × Nat)
  | .writing key seq _ _ _ | .installing key seq _ | .replacing key seq _
  | .renaming key seq _ => some (key, seq)
  | _ => none

variable [DecidableEq Key]

structure PartsKept (disk after : Disk (Dir Key)) : Prop where
  files : ∀ file ∈ after.files, ∀ key seq, file.1 = .part key seq → file ∈ disk.files
  reads : ∀ key seq name, after.read (.part key seq) name = disk.read (.part key seq) name
  space : ∀ key seq, after.usageOf (.part key seq) ≤ disk.usageOf (.part key seq)

theorem PartsKept.refl (disk : Disk (Dir Key)) : PartsKept disk disk :=
  ⟨fun _ member _ _ _ => member, fun _ _ _ => rfl, fun _ _ => Nat.le_refl _⟩

theorem PartsKept.unlink (disk : Disk (Dir Key)) (key : Key) (name : String) :
    PartsKept disk (disk.unlink (.entry key) name) :=
  ⟨fun _ member _ _ _ => (List.mem_filter.mp member).1, fun _ _ _ => by simp [Disk.read_unlink],
    fun _ _ => Disk.usageOf_unlink_le⟩

structure Staged (cache : Cache Key) : Prop where
  fresh : ∀ file ∈ cache.disk.files, ∀ key seq, file.1 = .part key seq → seq < cache.seq
  numbered : ∀ key seq, cache.publishing.staging = some (key, seq) → seq < cache.seq
  present : ∀ key seq shipped todo, cache.publishing.staged = some (key, seq, shipped, todo) →
    ∀ stem ∈ shipped, stem ∈ todo ∨ (cache.disk.read (.part key seq) stem.file).isSome = true
  space : ∀ key seq shipped todo, cache.publishing.staged = some (key, seq, shipped, todo) →
    cache.disk.usageOf (.part key seq) + weight todo ≤ weight shipped

theorem Staged.carry {cache after : Cache Key} (staged : Staged cache)
    (disk : PartsKept cache.disk after.disk) (seq : cache.seq ≤ after.seq)
    (staging : ∀ dir, after.publishing.staging = some dir → cache.publishing.staging = some dir)
    (same : ∀ stage, after.publishing.staged = some stage →
      cache.publishing.staged = some stage) : Staged after := by
  refine ⟨?_, ?_, ?_, ?_⟩
  · exact fun file member key number is =>
      Nat.lt_of_lt_of_le (staged.fresh file (disk.files file member key number is) key number is) seq
  · exact fun key number is => Nat.lt_of_lt_of_le (staged.numbered key number (staging _ is)) seq
  · intro key number shipped todo is stem member
    rw [disk.reads]
    exact staged.present key number shipped todo (same _ is) stem member
  · intro key number shipped todo is
    exact (Nat.add_le_add_right (disk.space key number) _).trans
      (staged.space key number shipped todo (same _ is))

theorem Staged.released {cache : Cache Key} (staged : Staged cache) : Staged cache.release := by
  have same : ∀ {α : Type} (view : Publishing Key → Option α), view .idle = none →
      ∀ stage, view cache.release.publishing = some stage → view cache.publishing = some stage := by
    intro α view idle stage is
    rcases cache.release_publishing with kept | ⟨-, ended⟩
    · exact kept ▸ is
    · rw [ended, idle] at is
      cases is
  exact staged.carry (.refl _) (Nat.le_refl _) (same _ rfl) (same _ rfl)

theorem Staged.vacant {cache : Cache Key} (staged : Staged cache) (key : Key) :
    cache.disk.has (.part key cache.seq) = false :=
  Disk.has_eq_false.mpr fun file member is =>
    Nat.lt_irrefl _ (staged.fresh file member key cache.seq is)

omit [DecidableEq Key] in
theorem weight_eraseIdx {todo : List Shipped} {thread : Nat} {stem : Shipped}
    (running : todo[thread]? = some stem) :
    weight todo = stem.content.length + weight (todo.eraseIdx thread) := by
  obtain ⟨inside, rfl⟩ := List.getElem?_eq_some_iff.mp running
  have perm := (List.getElem_cons_eraseIdx_perm inside).map fun stem => stem.content.length
  simpa [weight] using perm.sum_eq.symm

theorem files_write {disk : Disk (Dir Key)} {dir other : Dir Key} {file : File}
    {written : Dir Key × File} (member : written ∈ (disk.write dir file).files)
    (is : written.1 = other) : other = dir ∨ written ∈ disk.files := by
  rcases List.mem_cons.mp member with rfl | old
  · exact .inl is.symm
  · exact .inr (List.mem_filter.mp old).1

theorem Staged.wrote {cache : Cache Key} {key : Key} {seq thread : Nat}
    {shipped todo : List Shipped} {failed : Bool} {stem : Shipped} (staged : Staged cache)
    (here : cache.publishing = .writing key seq shipped todo failed)
    (running : todo[thread]? = some stem) :
    Staged { cache with
      disk := cache.disk.write (.part key seq) ⟨stem.file, stem.content⟩
      publishing := .writing key seq shipped (todo.eraseIdx thread) failed } := by
  have mine := staged.numbered key seq (by rw [here]; rfl)
  refine ⟨?_, fun _ _ is => (by cases is; exact mine), ?_, ?_⟩
  · intro file member other number is
    rcases files_write member is with same | old
    · cases same
      exact mine
    · exact staged.fresh file old other number is
  · intro other number shipped' todo' is wanted member
    cases failed with
    | true => cases is
    | false =>
        cases is
        rw [Disk.read_write]
        split
        · exact .inr rfl
        · rename_i apart
          rcases staged.present key seq shipped todo (by rw [here]; rfl) wanted member
            with waits | there
          · obtain ⟨inside, rfl⟩ := List.getElem?_eq_some_iff.mp running
            rcases List.mem_cons.mp ((List.getElem_cons_eraseIdx_perm inside).symm.subset waits)
              with rfl | waits
            · exact absurd ⟨rfl, rfl⟩ apart
            · exact .inl waits
          · exact .inr there
  · intro other number shipped' todo' is
    cases failed with
    | true => cases is
    | false =>
        cases is
        have before := staged.space key seq shipped todo (by rw [here]; rfl)
        have grown : (cache.disk.write (.part key seq) ⟨stem.file, stem.content⟩).usageOf
            (.part key seq) ≤ cache.disk.usageOf (.part key seq) + _ := Disk.usageOf_write_le
        rw [weight_eraseIdx running] at before
        rw [if_pos rfl] at grown
        dsimp only at grown ⊢
        omega

theorem Staged.publishes {cache after : Cache Key} {step : PublishStep} (staged : Staged cache)
    (publishes : Publishes cache step after) : Staged after := by
  cases publishes with
  | created key shipped here =>
      have empty := staged.vacant key
      refine ⟨?_, fun _ _ is => (by cases is; exact Nat.lt_succ_self _), ?_, ?_⟩
      · exact fun file member other number is =>
          Nat.lt_succ_of_lt (staged.fresh file member other number is)
      · intro other number shipped' todo is stem member
        cases is
        exact .inl member
      · intro other number shipped' todo is
        cases is
        rw [Disk.usageOf_eq_zero empty, Nat.zero_add]
  | wrote key seq shipped todo failed thread stem here running => exact staged.wrote here running
  | spoiled key seq shipped todo failed thread stem left here running =>
      have mine := staged.numbered key seq (by rw [here]; rfl)
      refine ⟨?_, fun _ _ is => (by cases is; exact mine), fun _ _ _ _ is => (by cases is),
        fun _ _ _ _ is => by cases is⟩
      intro file member other number is
      cases left with
      | none => exact staged.fresh file member other number is
      | some content =>
          rcases files_write member is with same | old
          · cases same
            exact mine
          · exact staged.fresh file old other number is
  | joined _ _ _ here | replacing _ _ _ here _ | fresh _ _ _ here _ | emptied _ _ _ here _ =>
      exact staged.carry (.refl _) (Nat.le_refl _) (fun _ is => by rw [here]; exact is)
        (fun _ is => by rw [here]; exact is)
  | unlinked key seq shipped name here =>
      exact staged.carry (.unlink _ key name) (Nat.le_refl _) (fun _ is => by rw [here]; exact is)
        (fun _ is => by rw [here]; exact is)
  | renamed key seq shipped here absent =>
      refine ⟨fun file member other number is => ?_, fun _ _ is => (by cases is),
        fun _ _ _ _ is => (by cases is), fun _ _ _ _ is => by cases is⟩
      obtain ⟨old, inside, rfl⟩ := List.mem_map.mp member
      split at is
      · cases is
      · exact staged.fresh old inside other number is
  | inserted entry order after here free iterates caps =>
      cases caps with
      | fits fits =>
          exact staged.carry (.refl _) (Nat.le_refl _) (fun _ is => by cases is)
            (fun _ is => by cases is)
      | exceeds exceeds =>
          exact staged.carry (.refl _) (Nat.le_refl _) (fun _ is => by cases is)
            (fun _ is => by cases is)
  | failed key seq fails later =>
      exact staged.carry (.refl _) later (fun _ is => by cases is) (fun _ is => by cases is)
  | converted _ _ _ | built _ _ _ =>
      exact staged.carry (.refl _) (Nat.le_refl _) (fun _ is => by cases is)
        (fun _ is => by cases is)

theorem Staged.caps {cache after : Cache Key} {order : List Nat} (staged : Staged cache)
    (caps : cache.Caps order after) : Staged after := by
  cases caps with
  | fits fits => exact staged.released
  | exceeds exceeds =>
      exact staged.carry (.refl _) (Nat.le_refl _) (fun _ is => is) (fun _ is => is)

theorem Staged.sweeps {cache after : Cache Key} {step : SweepStep} (staged : Staged cache)
    (sweeps : Sweeps cache step after) : Staged after := by
  cases sweeps with
  | unlinked entry rest name here =>
      exact staged.carry (.unlink _ _ name) (Nat.le_refl _) (fun _ is => is) (fun _ is => is)
  | aged now order after here iterates caps => exact staged.caps caps
  | released read victims total here enough => exact staged.released
  | _ => exact staged.carry (.refl _) (Nat.le_refl _) (fun _ is => is) (fun _ is => is)

theorem Staged.move {cache after : Cache Key} {event : Event Key} (staged : Staged cache)
    (move : Move cache event after) : Staged after := by
  cases move with
  | publish key shipped idle =>
      exact staged.carry (.refl _) (Nat.le_refl _) (fun _ is => by cases is)
        (fun _ is => by cases is)
  | publisher publishes => exact staged.publishes publishes
  | caps order after free iterates caps => exact staged.caps caps
  | sweeper sweeps => exact staged.sweeps sweeps
  | getter caller here gets =>
      cases gets <;>
        exact staged.carry (.refl _) (Nat.le_refl _) (fun _ is => is) (fun _ is => is)
  | _ => exact staged.carry (.refl _) (Nat.le_refl _) (fun _ is => is) (fun _ is => is)

theorem staged_of_reaches [Inhabited Key] {maxBytes unfetchedTtl : Nat}
    {ok : Cache Key → Event Key → Prop} {cache : Cache Key}
    (run : (Cache.system maxBytes unfetchedTtl).Reaches ok (.new maxBytes unfetchedTtl) cache) :
    Staged cache :=
  run.invariant ⟨fun _ member => (by cases member), fun _ _ is => (by cases is),
      fun _ _ _ _ is => (by cases is), fun _ _ _ _ is => by cases is⟩
    fun _ _ _ _ staged _ done => staged.move (move_of_step done)

end Stemd.Store
