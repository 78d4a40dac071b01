import Stemd.Store.Idle

/-! A publish that fails, and what can be read afterwards.

Nothing but the directory of the key is touched, and that one only once the new files are
all written: what `install` has removed of it by then is what is lost. -/

set_option autoImplicit false

namespace Stemd.Store

open Stemd.Semantics

variable {Key : Type} [DecidableEq Key]

def Cache.Readable (cache : Cache Key) (entry : Nat) : Prop :=
  ∀ stem ∈ (cache.heap entry).stems, cache.present entry stem = true

instance (cache : Cache Key) (entry : Nat) : Decidable (cache.Readable entry) :=
  inferInstanceAs (Decidable (∀ stem ∈ (cache.heap entry).stems, cache.present entry stem = true))

def Cache.Keeps (cache after : Cache Key) (entry : Nat) : Prop :=
  after.heap entry = cache.heap entry ∧ ∀ stem ∈ (cache.heap entry).stems,
    after.disk.read (.entry (cache.heap entry).key) stem.file =
      cache.disk.read (.entry (cache.heap entry).key) stem.file

def Cache.Untouched (cache after : Cache Key) : Prop :=
  after.entries = cache.entries ∧ ∀ entry, cache.Readable entry → cache.Keeps after entry

def Cache.publish (cache : Cache Key) (key : Key) (shipped : List Shipped)
    (steps : List PublishStep) : Option (Cache Key) :=
  (cache.step (.publish key shipped)).bind fun began => steps.foldlM Cache.publishStep began

def Publishing.unsure : Publishing Key → Option Key
  | .converting key _ | .creating key _ | .writing key _ _ _ _ | .installing key _ _
  | .replacing key _ _ | .renaming key _ _ | .failed key => some key
  | _ => none

omit [DecidableEq Key] in
theorem Publishing.Fails.unsure {publishing : Publishing Key} {step : PublishStep} {key : Key}
    (fails : publishing.Fails step key) : publishing.unsure = some key := by
  cases fails <;> rfl

/-- As long as the publish can fail, only what its steps have removed is missing. -/
def Cache.Lacks (cache after : Cache Key) (key : Key) (steps : List PublishStep) : Prop :=
  ∀ mine ∈ after.publishing.unsure,
    mine = key ∧ after.entries = cache.entries ∧ after.heap = cache.heap ∧
      ∀ other name, after.disk.read (.entry other) name =
        if other = key ∧ .unlinked name ∈ steps then none else cache.disk.read (.entry other) name

theorem read_leaves (disk : Disk (Dir Key)) (key other : Key) (seq : Nat) (file name : String)
    (left : Option (List UInt8)) :
    (leaves disk (.part key seq) file left).read (.entry other) name =
      disk.read (.entry other) name := by
  cases left with
  | none => rfl
  | some content => simp [leaves, Disk.read_write]

theorem Cache.Lacks.carry {cache before after : Cache Key} {key mine : Key}
    {steps : List PublishStep} {step : PublishStep} (lacks : cache.Lacks before key steps)
    (was : before.publishing.unsure = some mine) (is : after.publishing.unsure = some mine)
    (entries : after.entries = before.entries) (heap : after.heap = before.heap)
    (reads : ∀ other name, after.disk.read (.entry other) name =
      before.disk.read (.entry other) name)
    (kind : ∀ name, PublishStep.unlinked name ≠ step) :
    cache.Lacks after key (steps ++ [step]) := by
  intro other same
  cases is.symm.trans same
  obtain ⟨rfl, entries', heap', reads'⟩ := lacks mine was
  refine ⟨rfl, entries.trans entries', heap.trans heap', fun other name => ?_⟩
  rw [reads, reads']
  simp [kind]

theorem Cache.Lacks.publishes {cache before after : Cache Key} {key : Key}
    {steps : List PublishStep} {step : PublishStep} (lacks : cache.Lacks before key steps)
    (publishes : Publishes before step after) : cache.Lacks after key (steps ++ [step]) := by
  cases publishes with
  | converted _ _ here | created _ _ here | joined _ _ _ here | replacing _ _ _ here _
  | fresh _ _ _ here _ | emptied _ _ _ here _ =>
      exact lacks.carry (by rw [here]; rfl) rfl rfl rfl (fun _ _ => rfl) (fun _ same => by cases same)
  | wrote other seq shipped todo failed thread stem here running =>
      refine lacks.carry (by rw [here]; rfl) rfl rfl rfl (fun k name => ?_)
        (fun _ same => by cases same)
      simp [Disk.read_write]
  | spoiled other seq shipped todo failed thread stem left here running =>
      exact lacks.carry (by rw [here]; rfl) rfl rfl rfl (fun k name => read_leaves _ _ _ _ _ _ _)
        (fun _ same => by cases same)
  | unlinked other seq shipped name here =>
      intro mine is
      cases is
      obtain ⟨rfl, entries, heap, reads⟩ := lacks other (by rw [here]; rfl)
      refine ⟨rfl, entries, heap, fun k name' => ?_⟩
      rw [Disk.read_unlink, reads]
      by_cases same : other = k
      · by_cases named : name = name'
        · simp [same, named]
        · simp [same, named, Ne.symm named]
      · simp [same, Ne.symm same]
  | failed other seq fails later =>
      refine lacks.carry fails.unsure rfl rfl rfl (fun _ _ => rfl) fun name same => ?_
      rcases fails.step with rfl | rfl <;> cases same
  | inserted entry order after here free iterates caps =>
      intro mine is
      cases caps with
      | fits fits => cases is
      | exceeds exceeds => cases is
  | renamed _ _ _ _ _ | built _ _ _ =>
      intro mine is
      cases is

theorem lacks_of_steps {cache before after : Cache Key} {key : Key}
    {begun steps : List PublishStep} (lacks : cache.Lacks before key begun)
    (done : steps.foldlM Cache.publishStep before = some after) :
    cache.Lacks after key (begun ++ steps) := by
  induction steps generalizing before begun with
  | nil =>
      cases done
      simpa using lacks
  | cons step steps ih =>
      rw [List.foldlM_cons] at done
      obtain ⟨next, first, rest⟩ := Option.bind_eq_some_iff.mp done
      simpa using ih (lacks.publishes (publishes_of_step first)) rest

/-- A publish that fails leaves everything as it was exactly when none of its steps has removed
a file that somebody could read. -/
theorem failed_publish_keeps_iff {cache failed : Cache Key} {key mine : Key}
    {shipped : List Shipped} {steps : List PublishStep}
    (done : cache.publish key shipped steps = some failed)
    (err : failed.publishing = .failed mine) :
    cache.Untouched failed ↔ ∀ entry, cache.Readable entry → (cache.heap entry).key = key →
      ∀ stem ∈ (cache.heap entry).stems, .unlinked stem.file ∉ steps := by
  obtain ⟨began, begins, done⟩ := Option.bind_eq_some_iff.mp done
  have start : cache.Lacks began key [] := by
    cases move_of_step begins with
    | publish key shipped idle =>
        intro mine is
        cases is
        exact ⟨rfl, rfl, rfl, fun _ _ => by simp⟩
  have lacks : cache.Lacks failed key steps := lacks_of_steps start done
  obtain ⟨rfl, entries, heap, reads⟩ := lacks mine (by rw [err]; rfl)
  constructor
  · rintro ⟨-, kept⟩ entry readable same stem member lost
    have there := readable stem member
    have read := (kept entry readable).2 stem member
    rw [reads, if_pos ⟨same, lost⟩] at read
    simp [Cache.present, ← read] at there
  · intro useless
    refine ⟨entries, fun entry readable => ⟨congrFun heap entry, fun stem member => ?_⟩⟩
    rw [reads, if_neg]
    rintro ⟨same, lost⟩
    exact useless entry readable same stem member lost

/-- With no room for the new files, the old ones stay. -/
theorem full_disk_keeps_old_entry : ∃ cache failed : Cache Nat,
    (cache.Readable 0 ∧ (cache.heap 0).key = 7) ∧
      cache.publish 7 [vocals] [.converted, .created, .spoiled 0 none, .joined] = some failed ∧
        cache.Untouched failed := by
  have reached : ∃ cache : Cache Nat, (Cache.system 4 1).Reachable cache ∧
      (cache.Readable 0 ∧ (cache.heap 0).key = 7) ∧
        (cache.publish 7 [vocals] [.converted, .created, .spoiled 0 none, .joined]).any
          (fun failed => decide (failed.publishing = .failed 7)) = true :=
    System.exists_of_replay (published 7 vocals ++ [.publisher (.inserted [0])]) (by decide)
  obtain ⟨cache, -, readable, found⟩ := reached
  obtain ⟨failed, done, err⟩ := (Option.any_eq_true _ _).mp found
  refine ⟨cache, failed, readable, done, ?_⟩
  exact (failed_publish_keeps_iff done (of_decide_eq_true err)).mpr fun _ _ _ _ _ => by simp

/-- With the old files removed, the new ones may yet fail to take their place. -/
theorem failed_rename_loses_old_entry : ∃ cache failed : Cache Nat,
    (Cache.system 4 1).Reachable cache ∧ (cache.Readable 0 ∧ 0 ∈ cache.entries) ∧
      cache.publish 7 [vocals] [.converted, .created, .wrote 0, .joined, .looked,
        .unlinked "vocals.flac", .emptied, .failed] = some failed ∧
          failed.publishing = .failed 7 ∧ ¬ cache.Untouched failed := by
  have reached : ∃ cache : Cache Nat, (Cache.system 4 1).Reachable cache ∧
      (cache.Readable 0 ∧ 0 ∈ cache.entries) ∧
        (cache.publish 7 [vocals] [.converted, .created, .wrote 0, .joined, .looked,
          .unlinked "vocals.flac", .emptied, .failed]).any
            (fun failed => decide (failed.publishing = .failed 7 ∧
              ¬ ∀ stem ∈ (cache.heap 0).stems,
                failed.disk.read (.entry (cache.heap 0).key) stem.file =
                  cache.disk.read (.entry (cache.heap 0).key) stem.file)) = true :=
    System.exists_of_replay (published 7 vocals ++ [.publisher (.inserted [0])]) (by decide)
  obtain ⟨cache, reachable, held, found⟩ := reached
  obtain ⟨failed, done, lost⟩ := (Option.any_eq_true _ _).mp found
  obtain ⟨err, lost⟩ := of_decide_eq_true lost
  exact ⟨cache, failed, reachable, held, done, err, fun kept => lost (kept.2 0 held.1).2⟩

end Stemd.Store
