import Stemd.Store.Atomic
import Stemd.Store.Sized
import Stemd.Store.Staged

/-! Entries handed out, their files, and what tells that these are gone.

Two entries of one key have one directory. What keeps them apart is that a new directory is
put in place only once the old entry is out of the index, or on its way, and its directory
is nobody's to delete any more. -/

set_option autoImplicit false

namespace Stemd.Store

open Stemd.Semantics

variable {Key : Type}

def Publishing.replaces : Publishing Key → Option Key
  | .replacing key _ _ | .renaming key _ _ => some key
  | _ => none

def Cache.arriving (cache : Cache Key) : Option Key :=
  match cache.publishing with
  | .building key _ => some key
  | .inserting entry => some (cache.heap entry).key
  | _ => none

def Sweep.removes : Sweep → Option Nat
  | .removing entry _ => some entry
  | _ => none

def Succeeds (_ : Cache Key) : Event Key → Prop
  | .publisher (.spoiled _ _) | .publisher .failed | .sweeper .failed => False
  | _ => True

def Installs (cache : Cache Key) : Event Key → Prop
  | .publisher .failed => cache.publishing.replaces = none
  | _ => True

/-- A new directory is put in place where every entry of its key is out of the index, or at
least evicted, and none of them is being deleted. -/
def Vacant (cache : Cache Key) : Event Key → Prop
  | .publisher .renamed => ∀ key ∈ cache.publishing.replaces,
      (∀ entry ∈ cache.entries, (cache.heap entry).key = key →
        (cache.heap entry).evicted = true) ∧
          ∀ entry ∈ cache.sweep.removes, (cache.heap entry).key ≠ key
  | _ => True

/-- New directories take their places, and no directory is replaced under an entry that stays. -/
def Orderly (cache : Cache Key) (event : Event Key) : Prop :=
  Installs cache event ∧ Vacant cache event

instance (cache : Cache Key) (event : Event Key) : Decidable (Succeeds cache event) := by
  induction event using Event.casesOn with
  | publisher step =>
      induction step using PublishStep.casesOn with
      | spoiled _ _ | failed => exact inferInstanceAs (Decidable False)
      | _ => exact inferInstanceAs (Decidable True)
  | sweeper step =>
      induction step using SweepStep.casesOn with
      | failed => exact inferInstanceAs (Decidable False)
      | _ => exact inferInstanceAs (Decidable True)
  | _ => exact inferInstanceAs (Decidable True)

variable [DecidableEq Key]

instance (cache : Cache Key) (event : Event Key) : Decidable (Installs cache event) := by
  induction event using Event.casesOn with
  | publisher step =>
      induction step using PublishStep.casesOn with
      | failed => exact inferInstanceAs (Decidable (cache.publishing.replaces = none))
      | _ => exact inferInstanceAs (Decidable True)
  | _ => exact inferInstanceAs (Decidable True)

instance (cache : Cache Key) (event : Event Key) : Decidable (Vacant cache event) := by
  induction event using Event.casesOn with
  | publisher step =>
      induction step using PublishStep.casesOn with
      | renamed => exact inferInstanceAs (Decidable (∀ key ∈ cache.publishing.replaces, _))
      | _ => exact inferInstanceAs (Decidable True)
  | _ => exact inferInstanceAs (Decidable True)

instance (cache : Cache Key) (event : Event Key) : Decidable (Orderly cache event) :=
  inferInstanceAs (Decidable (Installs cache event ∧ Vacant cache event))

structure Kept (cache : Cache Key) : Prop where
  standing : ∀ entry < cache.made, cache.publishing ≠ .inserting entry →
    (cache.heap entry).evicted = false → entry ∈ cache.entries ∧
      (cache.Readable entry ∨ cache.publishing.replaces = some (cache.heap entry).key)
  alone : ∀ key ∈ cache.arriving,
    (∀ entry ∈ cache.entries, (cache.heap entry).key = key →
      (cache.heap entry).evicted = true) ∧
        ∀ entry ∈ cache.sweep.removes, (cache.heap entry).key ≠ key
  placed : ∀ key shipped, cache.publishing = .building key shipped →
    ∀ stem ∈ shipped, (cache.disk.read (.entry key) stem.file).isSome = true
  ready : ∀ entry, cache.publishing = .inserting entry → cache.Readable entry
  doomed : ∀ entry ∈ cache.entries, cache.sweep.Dooms entry → (cache.heap entry).evicted = true
  removing : ∀ entry ∈ cache.sweep.removes, (cache.heap entry).evicted = true ∧
    ∀ other ∈ cache.entries, (cache.heap other).key = (cache.heap entry).key → other = entry

theorem Cache.Readable.congr {cache after : Cache Key} {entry : Nat}
    (readable : cache.Readable entry)
    (key : (after.heap entry).key = (cache.heap entry).key)
    (stems : (after.heap entry).stems = (cache.heap entry).stems)
    (reads : ∀ name, after.disk.read (.entry (cache.heap entry).key) name =
      cache.disk.read (.entry (cache.heap entry).key) name) :
    after.Readable entry := by
  simpa only [Cache.Readable, Cache.present, key, stems, reads] using readable

theorem Kept.onward {cache after : Cache Key} (kept : Kept cache)
    (heap : after.heap = cache.heap) (made : after.made = cache.made)
    (entries : after.entries = cache.entries) (sweep : after.sweep = cache.sweep)
    (was : cache.arriving = none) (is : after.arriving = none)
    (stands : ∀ entry, cache.Readable entry ∨
      cache.publishing.replaces = some (cache.heap entry).key → after.Readable entry ∨
        after.publishing.replaces = some (cache.heap entry).key) : Kept after := by
  refine ⟨fun entry known _ live => ?_, ?_, fun key shipped here => ?_, fun entry here => ?_, ?_, ?_⟩
  · have outside : cache.publishing ≠ .inserting entry := fun same => by
      simp [Cache.arriving, same] at was
    rw [heap] at live ⊢
    obtain ⟨inside, stand⟩ := kept.standing entry (made ▸ known) outside live
    exact ⟨entries ▸ inside, stands entry stand⟩
  · rw [is]
    exact fun key is => by cases is
  · simp [Cache.arriving, here] at is
  · simp [Cache.arriving, here] at is
  · rw [entries, sweep, heap]
    exact kept.doomed
  · rw [entries, sweep, heap]
    exact kept.removing

omit [DecidableEq Key] in
theorem removes_made {cache : Cache Key} {entry : Nat} (sound : Sound cache)
    (removes : cache.sweep.removes = some entry) : entry < cache.made := by
  have swept := sound.swept
  unfold Sweep.removes at removes
  split at removes
  · rename_i other rest here
    cases removes
    rw [here] at swept
    cases rest with
    | ageing now todo => exact sound.made entry (swept.2 List.mem_cons_self)
    | rotating read victims total => exact swept.2.1
    | clearing todo => exact sound.made entry (swept.2 List.mem_cons_self)
  · cases removes

omit [DecidableEq Key] in
theorem arriving_eq {cache after : Cache Key} (sound : Sound cache) (fixes : Fixes cache after)
    (publishing : after.publishing = cache.publishing ∨
      (∃ entry, cache.publishing = .capping entry) ∧ after.publishing = .idle) :
    after.arriving = cache.arriving := by
  rcases publishing with same | ⟨⟨entry, capping⟩, idle⟩
  · cases here : cache.publishing with
    | inserting entry =>
        simp only [Cache.arriving, same.trans here, here,
          fixes.key entry (sound.pending entry here).1]
    | _ => simp only [Cache.arriving, same.trans here, here]
  · simp only [Cache.arriving, capping, idle]

theorem Kept.advance {cache after : Cache Key} (kept : Kept cache) (sound : Sound cache)
    (made : after.made = cache.made) (disk : after.disk = cache.disk)
    (publishing : after.publishing = cache.publishing ∨
      (∃ entry, cache.publishing = .capping entry) ∧ after.publishing = .idle)
    (fixes : Fixes cache after) (sub : after.entries.Sublist cache.entries)
    (leaves : ∀ entry ∈ cache.entries, (after.heap entry).evicted = false →
      entry ∈ after.entries)
    (removes : ∀ entry ∈ after.sweep.removes, cache.sweep.removes = some entry ∨
      entry ∈ cache.entries ∧ (cache.heap entry).evicted = false ∧
        (after.heap entry).evicted = true)
    (dooms : ∀ entry ∈ after.entries, after.sweep.Dooms entry →
      (after.heap entry).evicted = true) : Kept after := by
  have readable : ∀ entry < cache.made, cache.Readable entry → after.Readable entry :=
    fun entry known there =>
      there.congr (fixes.key entry known) (fixes.stems entry known) fun _ => by rw [disk]
  have live : ∀ entry < cache.made, (after.heap entry).evicted = false →
      (cache.heap entry).evicted = false := fun entry known is =>
    Bool.eq_false_iff.mpr fun was =>
      Bool.false_ne_true (is.symm.trans (fixes.evicted entry known was))
  have inserting : ∀ entry, after.publishing = .inserting entry ↔
      cache.publishing = .inserting entry := by
    intro entry
    rcases publishing with same | ⟨⟨capping, was⟩, is⟩
    · rw [same]
    · simp [was, is]
  refine ⟨fun entry known outside is => ?_, fun key arrives => ?_, fun key shipped here => ?_,
    fun entry here => ?_, dooms, fun entry is => ?_⟩
  · have before : entry < cache.made := made ▸ known
    obtain ⟨inside, stand⟩ := kept.standing entry before
      (fun same => outside ((inserting entry).mpr same)) (live entry before is)
    refine ⟨leaves entry inside is, stand.imp (readable entry before) fun replaced => ?_⟩
    rw [fixes.key entry before]
    rcases publishing with same | ⟨⟨capping, was⟩, -⟩
    · exact same ▸ replaced
    · simp [was, Publishing.replaces] at replaced
  · rw [arriving_eq sound fixes publishing] at arrives
    obtain ⟨gone, others⟩ := kept.alone key arrives
    refine ⟨fun entry inside same => ?_, fun entry is same => ?_⟩
    · have known := sound.made entry (sub.subset inside)
      rw [fixes.key entry known] at same
      exact fixes.evicted entry known (gone entry (sub.subset inside) same)
    · rcases removes entry is with was | ⟨inside, alive, -⟩
      · exact others entry was ((fixes.key entry (removes_made sound was)).symm.trans same)
      · rw [fixes.key entry (sound.made entry inside)] at same
        exact Bool.false_ne_true (alive.symm.trans (gone entry inside same))
  · rcases publishing with same | ⟨-, idle⟩
    · rw [disk]
      exact kept.placed key shipped (same ▸ here)
    · cases idle.symm.trans here
  · have was := (inserting entry).mp here
    exact readable entry (sound.pending entry was).1 (kept.ready entry was)
  · have keys : ∀ other ∈ after.entries, (after.heap other).key = (cache.heap other).key :=
      fun other inside => fixes.key other (sound.made other (sub.subset inside))
    rcases removes entry is with was | ⟨inside, -, evicted⟩
    · obtain ⟨evicted, only⟩ := kept.removing entry was
      have known := removes_made sound was
      refine ⟨fixes.evicted entry known evicted, fun other inside same => ?_⟩
      rw [keys other inside, fixes.key entry known] at same
      exact only other (sub.subset inside) same
    · refine ⟨evicted, fun other inside' same => ?_⟩
      rw [keys other inside', fixes.key entry (sound.made entry inside)] at same
      exact sound.keys other (sub.subset inside') entry inside same

theorem Kept.pass {cache after : Cache Key} (kept : Kept cache) (sound : Sound cache)
    (made : after.made = cache.made) (heap : after.heap = cache.heap)
    (entries : after.entries = cache.entries) (disk : after.disk = cache.disk)
    (publishing : after.publishing = cache.publishing ∨
      (∃ entry, cache.publishing = .capping entry) ∧ after.publishing = .idle)
    (removes : ∀ entry ∈ after.sweep.removes, cache.sweep.removes = some entry)
    (dooms : ∀ entry ∈ cache.entries, after.sweep.Dooms entry → cache.sweep.Dooms entry) :
    Kept after := by
  refine kept.advance sound made disk publishing (.of_eq made heap) (entries ▸ .refl _)
    (fun _ member _ => entries ▸ member) (fun entry is => .inl (removes entry is))
    fun entry member doomed => ?_
  rw [entries] at member
  rw [heap]
  exact kept.doomed entry member (dooms entry member doomed)

theorem Kept.caps {cache after : Cache Key} {order : List Nat} (kept : Kept cache)
    (sound : Sound cache) (caps : cache.Caps order after) : Kept after := by
  cases caps with
  | fits fits =>
      exact kept.pass sound rfl rfl rfl rfl cache.release_publishing (fun _ is => by cases is)
        (fun _ _ dooms => dooms.elim)
  | exceeds exceeds =>
      exact kept.pass sound rfl rfl rfl rfl (.inl rfl) (fun _ is => by cases is)
        (fun _ _ dooms => dooms.elim)

theorem Kept.insert {cache : Cache Key} {entry : Nat} (kept : Kept cache)
    (free : cache.sweep = .free) (here : cache.publishing = .inserting entry) :
    Kept (cache.indexed entry) := by
  have alone := (kept.alone (cache.heap entry).key (by simp [Cache.arriving, here])).1
  have swept : (cache.indexed entry).sweep = .free := free
  refine ⟨fun other known _ live => ?_, fun _ is => (by cases is), fun _ _ is => (by cases is),
    fun _ is => (by cases is), fun _ _ dooms => ?_, fun _ is => ?_⟩
  · by_cases same : other = entry
    · subst same
      exact ⟨List.mem_append_right _ (List.mem_singleton.mpr rfl), .inl (kept.ready other here)⟩
    · obtain ⟨inside, stand⟩ := kept.standing other known
        (fun is => same (Publishing.inserting.inj (is.symm.trans here))) live
      refine ⟨List.mem_append_left _ (List.mem_filter.mpr ⟨inside, decide_eq_true fun key => ?_⟩),
        .inl ?_⟩
      · exact Bool.false_ne_true (live.symm.trans (alone other inside key))
      · exact stand.resolve_right fun replaced => by simp [here, Publishing.replaces] at replaced
  · rw [swept] at dooms
    exact dooms.elim
  · rw [swept] at is
    cases is

theorem Kept.built {cache : Cache Key} {key : Key} {shipped : List Shipped} (kept : Kept cache)
    (sound : Sound cache) (here : cache.publishing = .building key shipped) :
    Kept { cache with
      heap := Function.update cache.heap cache.made (entryOf key shipped cache.clock)
      made := cache.made + 1
      publishing := .inserting cache.made } := by
  have old : ∀ entry < cache.made,
      Function.update cache.heap cache.made (entryOf key shipped cache.clock) entry =
        cache.heap entry := fun entry known => Function.update_of_ne (Nat.ne_of_lt known) _ _
  obtain ⟨gone, others⟩ := kept.alone key (by simp [Cache.arriving, here])
  refine ⟨fun entry known outside live => ?_, fun mine arrives => ?_, fun _ _ is => (by cases is),
    fun entry is => ?_, fun entry inside dooms => ?_, fun entry is => ?_⟩
  · have before : entry < cache.made :=
      Nat.lt_of_le_of_ne (Nat.le_of_lt_succ known) fun same => outside (same ▸ rfl)
    simp only [old entry before] at live ⊢
    obtain ⟨inside, stand⟩ := kept.standing entry before (by simp [here]) live
    refine ⟨inside, .inl ?_⟩
    have readable := stand.resolve_right fun replaced => by
      simp [here, Publishing.replaces] at replaced
    exact readable.congr (congrArg Entry.key (old entry before))
      (congrArg Entry.stems (old entry before)) fun _ => rfl
  · simp only [Cache.arriving, Function.update_self, Option.mem_def, Option.some.injEq] at arrives
    subst arrives
    refine ⟨fun entry inside same => ?_, fun entry is same => ?_⟩
    · simp only [old entry (sound.made entry inside)] at same ⊢
      exact gone entry inside same
    · simp only [old entry (removes_made sound is)] at same
      exact others entry is same
  · cases is
    intro stem member
    simp only [Function.update_self, entryOf, Cache.present] at member ⊢
    obtain ⟨made, wanted, rfl⟩ := List.mem_map.mp member
    exact kept.placed key shipped here made wanted
  · simp only [old entry (sound.made entry inside)]
    exact kept.doomed entry inside dooms
  · obtain ⟨evicted, only⟩ := kept.removing entry is
    have before := removes_made sound is
    simp only [old entry before]
    refine ⟨evicted, fun other inside same => ?_⟩
    simp only [old other (sound.made other inside)] at same
    exact only other inside same

theorem Kept.renamed {cache : Cache Key} {key : Key} {seq : Nat} {shipped : List Shipped}
    (kept : Kept cache) (staged : Staged cache)
    (here : cache.publishing = .renaming key seq shipped)
    (absent : cache.disk.has (.entry key) = false)
    (vacant : (∀ entry ∈ cache.entries, (cache.heap entry).key = key →
      (cache.heap entry).evicted = true) ∧
        ∀ entry ∈ cache.sweep.removes, (cache.heap entry).key ≠ key) :
    Kept { cache with
      disk := cache.disk.rename (.part key seq) (.entry key)
      publishing := .building key shipped } := by
  refine ⟨fun entry known _ live => ?_, fun _ is => ?_, fun _ _ is stem member => ?_,
    fun _ is => (by cases is), kept.doomed, kept.removing⟩
  · obtain ⟨inside, stand⟩ := kept.standing entry known (by simp [here]) live
    have apart : (cache.heap entry).key ≠ key := fun same =>
      Bool.false_ne_true (live.symm.trans (vacant.1 entry inside same))
    refine ⟨inside, .inl ?_⟩
    have readable := stand.resolve_right fun replaced => by
      simp [here, Publishing.replaces, Ne.symm apart] at replaced
    refine readable.congr rfl rfl fun name => ?_
    simp [Disk.read_rename absent, apart]
  · cases is
    exact vacant
  · cases is
    rw [Disk.read_rename absent, if_pos rfl]
    have there := staged.present key seq shipped [] (by rw [here]; rfl) stem member
    exact there.resolve_left (by simp)

omit [DecidableEq Key] in
theorem Publishing.Fails.arriving {cache : Cache Key} {step : PublishStep} {key : Key}
    (fails : cache.publishing.Fails step key) : cache.arriving = none := by
  unfold Cache.arriving
  generalize cache.publishing = publishing at fails
  cases fails <;> rfl

theorem Kept.publishes {cache after : Cache Key} {step : PublishStep} (kept : Kept cache)
    (sound : Sound cache) (staged : Staged cache) (installs : Installs cache (.publisher step))
    (vacant : Vacant cache (.publisher step)) (publishes : Publishes cache step after) :
    Kept after := by
  have elsewhere : ∀ {disk : Disk (Dir Key)} {entry : Nat},
      (∀ name, disk.read (.entry (cache.heap entry).key) name =
        cache.disk.read (.entry (cache.heap entry).key) name) →
          cache.Readable entry → Cache.Readable { cache with disk := disk } entry :=
    fun reads there => there.congr rfl rfl reads
  cases publishes with
  | converted _ _ here | created _ _ here | joined _ _ _ here =>
      exact kept.onward rfl rfl rfl rfl (by simp [Cache.arriving, here]) rfl
        fun entry stand => .inl (stand.resolve_right (by simp [here, Publishing.replaces]))
  | wrote key seq shipped todo failed thread stem here running =>
      refine kept.onward rfl rfl rfl rfl (by simp [Cache.arriving, here]) rfl
        fun entry stand => .inl (elsewhere (fun name => ?_)
          (stand.resolve_right (by simp [here, Publishing.replaces])))
      simp [Disk.read_write]
  | spoiled key seq shipped todo failed thread stem left here running =>
      exact kept.onward rfl rfl rfl rfl (by simp [Cache.arriving, here]) rfl
        fun entry stand => .inl (elsewhere (fun name => read_leaves _ _ _ _ _ _ _)
          (stand.resolve_right (by simp [here, Publishing.replaces])))
  | replacing _ _ _ here _ | fresh _ _ _ here _ =>
      exact kept.onward rfl rfl rfl rfl (by simp [Cache.arriving, here]) rfl
        fun entry stand => .inl (stand.resolve_right (by simp [here, Publishing.replaces]))
  | unlinked key seq shipped name here =>
      refine kept.onward rfl rfl rfl rfl (by simp [Cache.arriving, here]) rfl fun entry stand => ?_
      rcases stand with readable | replaced
      · by_cases same : (cache.heap entry).key = key
        · exact .inr (by rw [same]; rfl)
        · refine .inl (elsewhere (fun name' => ?_) readable)
          simp [Disk.read_unlink, Ne.symm same]
      · rw [here] at replaced
        exact .inr replaced
  | emptied key seq shipped here absent =>
      refine kept.onward rfl rfl rfl rfl (by simp [Cache.arriving, here]) rfl fun entry stand =>
        stand.imp id fun replaced => ?_
      rw [here] at replaced
      exact replaced
  | renamed key seq shipped here absent =>
      exact kept.renamed staged here absent (vacant key (by rw [here]; rfl))
  | built key shipped here => exact kept.built sound here
  | inserted entry order after here free iterates caps =>
      exact (kept.insert free here).caps (sound.insert free here) caps
  | failed key seq fails later =>
      refine kept.onward rfl rfl rfl rfl fails.arriving rfl fun entry stand =>
        .inl (stand.resolve_right fun replaced => ?_)
      rcases fails.step with rfl | rfl
      · generalize cache.publishing = publishing at fails replaced
        cases fails
        cases replaced
      · cases installs.symm.trans replaced

theorem Kept.unlinked {cache : Cache Key} {entry : Nat} {rest : Rest} (kept : Kept cache)
    (here : cache.sweep = .removing entry rest) (name : String) :
    Kept { cache with disk := cache.disk.unlink (.entry (cache.heap entry).key) name } := by
  have mine : cache.sweep.removes = some entry := by rw [here]; rfl
  obtain ⟨evicted, only⟩ := kept.removing entry mine
  have apart : ∀ other, (cache.heap other).key ≠ (cache.heap entry).key →
      cache.Readable other → Cache.Readable { cache with
        disk := cache.disk.unlink (.entry (cache.heap entry).key) name } other :=
    fun other apart there => there.congr rfl rfl fun name' => by
      simp [Disk.read_unlink, Ne.symm apart]
  refine ⟨fun other known outside live => ?_, kept.alone, fun key shipped is stem member => ?_,
    fun other is => ?_, kept.doomed, kept.removing⟩
  · obtain ⟨inside, stand⟩ := kept.standing other known outside live
    refine ⟨inside, stand.imp (apart other fun same => ?_) id⟩
    cases only other inside same
    exact Bool.false_ne_true (live.symm.trans evicted)
  · have others := (kept.alone key (by simp [Cache.arriving, show cache.publishing = _ from is])).2
    have reads := kept.placed key shipped is stem member
    rw [Disk.read_unlink, if_neg]
    · exact reads
    · rintro ⟨same, -⟩
      exact others entry mine (Dir.entry.inj same)
  · have others := (kept.alone (cache.heap other).key
      (by simp [Cache.arriving, show cache.publishing = _ from is])).2
    exact apart other (Ne.symm (others entry mine)) (kept.ready other is)

theorem Kept.evict {cache after : Cache Key} {entry : Nat} {rest : Rest} (kept : Kept cache)
    (sound : Sound cache) (inside : entry ∈ cache.entries)
    (spared : ¬ cache.sweep.Dooms entry) (made : after.made = cache.made)
    (disk : after.disk = cache.disk) (publishing : after.publishing = cache.publishing)
    (heap : after.heap = (cache.change entry Entry.evict).heap)
    (entries : after.entries = cache.entries ∨ after.entries = cache.entries.filter (· ≠ entry))
    (sweep : after.sweep = .removing entry rest)
    (dooms : ∀ other ∈ after.entries, after.sweep.Dooms other →
      other = entry ∨ cache.sweep.Dooms other) : Kept after := by
  have evicted : ∀ other, (after.heap other).evicted = true ↔
      other = entry ∨ (cache.heap other).evicted = true := fun other => by
    rw [heap]
    exact evict_evicted cache entry other
  have sub : after.entries.Sublist cache.entries := by
    rcases entries with same | less
    · exact same ▸ .refl _
    · exact less ▸ List.filter_sublist
  refine kept.advance sound made disk (.inl publishing)
    (.of_change made heap rfl rfl rfl fun _ => rfl) sub
    (fun other member live => ?_) (fun other is => .inr ?_) fun other member doomed => ?_
  · have apart : other ≠ entry := fun same =>
      Bool.false_ne_true (live.symm.trans ((evicted other).mpr (.inl same)))
    rcases entries with same | less
    · exact same ▸ member
    · exact less ▸ List.mem_filter.mpr ⟨member, decide_eq_true apart⟩
  · rw [sweep] at is
    cases is
    exact ⟨inside, Bool.eq_false_iff.mpr fun was => spared (sound.live entry inside was),
      (evicted entry).mpr (.inl rfl)⟩
  · exact (evicted other).mpr
      ((dooms other member doomed).imp id (kept.doomed other (sub.subset member)))

theorem Kept.sweeps {cache after : Cache Key} {step : SweepStep} (kept : Kept cache)
    (sound : Sound cache) (sweeps : Sweeps cache step after) : Kept after := by
  have swept := sound.swept
  cases sweeps with
  | reaped now entry todo here =>
      rw [here] at swept
      refine kept.evict sound (swept.2 List.mem_cons_self) (by rw [here]; exact id) rfl rfl rfl rfl
        (.inl rfl) rfl fun other _ dooms => .inl dooms
  | emptied entry todo here =>
      rw [here] at swept
      refine kept.evict sound (swept.2 List.mem_cons_self)
        (by rw [here]; exact fun outside => outside List.mem_cons_self) rfl rfl rfl rfl (.inl rfl)
        rfl fun other _ dooms => ?_
      rw [here]
      refine or_iff_not_imp_left.mpr fun apart member => ?_
      exact dooms ((List.mem_cons.mp member).resolve_left apart)
  | rotated read entry victims total here exceeds =>
      rw [here] at swept
      obtain ⟨dropped, last, -, perm, -⟩ := swept
      exact kept.evict sound (perm.symm.subset List.mem_cons_self) (by rw [here]; exact id) rfl rfl
        rfl rfl (.inr rfl) rfl fun _ _ dooms => dooms.elim
  | unlinked entry rest name here => exact kept.unlinked here name
  | removed entry rest here _ | failed entry rest here =>
      obtain ⟨evicted, -⟩ := kept.removing entry (by rw [here]; rfl)
      cases rest with
      | ageing now todo =>
          refine kept.advance sound rfl rfl (.inl rfl) (.of_eq rfl rfl) List.filter_sublist
            (fun other member live => ?_) (fun _ is => by cases is) (fun _ _ dooms => dooms.elim)
          refine List.mem_filter.mpr ⟨member, decide_eq_true ?_⟩
          rintro rfl
          exact Bool.false_ne_true (live.symm.trans evicted)
      | rotating read victims total =>
          exact kept.pass sound rfl rfl rfl rfl (.inl rfl) (fun _ is => by cases is)
            (fun _ _ dooms => dooms.elim)
      | clearing todo =>
          exact kept.pass sound rfl rfl rfl rfl (.inl rfl) (fun _ is => by cases is)
            fun _ _ dooms => by rw [here]; exact dooms
  | aged now order after here iterates caps => exact kept.caps sound caps
  | released read victims total here enough =>
      exact kept.pass sound rfl rfl rfl rfl cache.release_publishing (fun _ is => by cases is)
        (fun _ _ dooms => dooms.elim)
  | cleared here =>
      refine kept.advance sound rfl rfl (.inl rfl) (.of_eq rfl rfl) (List.nil_sublist _)
        (fun other member live => ?_) (fun _ is => by cases is) (fun _ _ dooms => dooms.elim)
      have evicted := kept.doomed other member (by rw [here]; exact List.not_mem_nil)
      exact (Bool.false_ne_true (live.symm.trans evicted)).elim
  | _ =>
      exact kept.pass sound rfl rfl rfl rfl (.inl rfl) (fun _ is => by cases is)
        (fun _ _ dooms => dooms.elim)

theorem Kept.gets {cache after : Cache Key} {caller : Nat} {getting next : Getting Key}
    (kept : Kept cache) (sound : Sound cache) (gets : Gets cache caller getting after next) :
    Kept after := by
  cases gets with
  | hit key entry free found =>
      exact kept.pass sound rfl rfl rfl rfl (.inl rfl) (fun _ is => by cases is)
        (fun _ _ dooms => dooms.elim)
  | touched entry now here =>
      exact kept.advance sound rfl rfl (.inl rfl) (.of_change rfl rfl rfl rfl rfl id) (.refl _)
        (fun _ member _ => member) (fun _ is => by cases is) (fun _ _ dooms => dooms.elim)
  | dropped entry free held =>
      refine kept.advance sound rfl rfl (.inl rfl)
        (.of_change rfl rfl rfl rfl rfl fun _ => rfl) List.filter_sublist
        (fun other member live => ?_) (fun _ is => .inl is) fun other _ dooms => ?_
      · refine List.mem_filter.mpr ⟨member, decide_eq_true ?_⟩
        rintro rfl
        exact Bool.false_ne_true (live.symm.trans ((evict_evicted cache other other).mpr (.inl rfl)))
      · change cache.sweep.Dooms other at dooms
        rw [free] at dooms
        exact dooms.elim
  | _ => exact kept

theorem Kept.move {cache after : Cache Key} {event : Event Key} (kept : Kept cache)
    (sound : Sound cache) (staged : Staged cache) (installs : Installs cache event)
    (vacant : Vacant cache event) (move : Move cache event after) : Kept after := by
  have fixes := move.fixes
  cases move with
  | publish key shipped idle =>
      refine kept.onward rfl rfl rfl rfl ?_ rfl fun entry stand =>
        .inl (stand.resolve_right fun replaced => ?_)
      · rcases idle with idle | ⟨failed, idle⟩ <;> simp [Cache.arriving, idle]
      · rcases idle with idle | ⟨failed, idle⟩ <;> simp [idle, Publishing.replaces] at replaced
  | publisher publishes => exact kept.publishes sound staged installs vacant publishes
  | ages order free iterates =>
      exact kept.pass sound rfl rfl rfl rfl (.inl rfl) (fun _ is => by cases is)
        (fun _ _ dooms => dooms.elim)
  | caps order after free iterates caps => exact kept.caps sound caps
  | clear order free iterates =>
      exact kept.pass sound rfl rfl rfl rfl (.inl rfl) (fun _ is => by cases is)
        fun _ member dooms => (dooms (iterates.symm.subset member)).elim
  | sweeper sweeps => exact kept.sweeps sound sweeps
  | @getter caller getting next moved here gets =>
      exact (kept.gets sound gets).pass (sound.gets gets) rfl rfl rfl rfl (.inl rfl)
        (fun _ is => is) (fun _ _ dooms => dooms)
  | fetch entry name known =>
      exact kept.advance sound rfl rfl (.inl rfl) fixes (.refl _) (fun _ member _ => member)
        (fun _ is => .inl is) fun other member dooms =>
          fixes.evicted other (sound.made other member) (kept.doomed other member dooms)
  | get _ | tick =>
      exact kept.pass sound rfl rfl rfl rfl (.inl rfl) (fun _ is => is) (fun _ _ dooms => dooms)

section runs

variable [Inhabited Key] {maxBytes unfetchedTtl : Nat}

theorem kept_of_reaches {cache : Cache Key}
    (run : (Cache.system maxBytes unfetchedTtl).Reaches Orderly (.new maxBytes unfetchedTtl)
      cache) : Kept cache :=
  run.invariant ⟨fun _ known => (by cases known), fun _ is => (by cases is),
      fun _ _ is => (by cases is), fun _ is => (by cases is), fun _ member => (by cases member),
      fun _ is => by cases is⟩
    fun _ _ _ before kept allowed done => kept.move (sound_of_reaches before)
      (staged_of_reaches before) allowed.1 allowed.2 (move_of_step done)

/-- An entry that is not evicted has its files, unless the directory is being replaced. -/
theorem present_or_evicted {cache : Cache Key}
    (run : (Cache.system maxBytes unfetchedTtl).Reaches Orderly (.new maxBytes unfetchedTtl)
      cache) {entry : Nat} (made : entry < cache.made)
    (handedOut : cache.publishing ≠ .inserting entry)
    (settled : cache.publishing.replaces ≠ some (cache.heap entry).key) :
    cache.Readable entry ∨ (cache.heap entry).evicted = true := by
  cases live : (cache.heap entry).evicted with
  | true => exact .inr rfl
  | false =>
      obtain ⟨-, stand⟩ := (kept_of_reaches run).standing entry made handedOut live
      exact .inl (stand.resolve_right settled)

end runs

/-- With the old entry out of the way, its key can be published again. -/
theorem new_entry_is_present : ∃ cache : Cache Nat,
    (cache.publishing = .idle ∧ cache.made = 2 ∧ (cache.heap 0).evicted = true) ∧
      (cache.Readable 1 ∨ (cache.heap 1).evicted = true) := by
  have reached : ∃ cache : Cache Nat, (Cache.system 4 1).Reaches Orderly (.new 4 1) cache ∧
      cache.publishing = .idle ∧ cache.made = 2 ∧ (cache.heap 0).evicted = true :=
    System.exists_of_replay (published 7 vocals ++ .publisher (.inserted [0]) ::
      [.clear [0], .sweeper .marked, .sweeper (.unlinked "vocals.flac"), .sweeper .removed,
        .sweeper .cleared] ++ published 7 vocals ++ [.publisher (.inserted [1])]) (by decide)
  obtain ⟨cache, run, idle, made, evicted⟩ := reached
  refine ⟨cache, ⟨idle, made, evicted⟩, present_or_evicted run ?_ ?_ ?_⟩
  · rw [made]
    decide
  · rw [idle]
    exact fun is => by cases is
  · rw [idle]
    exact fun is => by cases is

/-- Published twice and cleared once: the first entry is not told. -/
theorem replaced_entry_is_not_told : ∃ cache : Cache Nat,
    (Cache.system 4 1).Reaches Succeeds (.new 4 1) cache ∧
      (cache.publishing = .idle ∧ cache.sweep = .free) ∧ 0 < cache.made ∧
        ¬ (cache.Readable 0 ∨ (cache.heap 0).evicted = true) :=
  System.exists_of_replay (published 7 vocals ++ .publisher (.inserted [0]) ::
    [.publish 7 [vocals], .publisher .converted, .publisher .created, .publisher (.wrote 0),
      .publisher .joined, .publisher .looked, .publisher (.unlinked "vocals.flac"),
      .publisher .emptied, .publisher .renamed, .publisher .built, .publisher (.inserted [1]),
      .clear [1], .sweeper .marked, .sweeper (.unlinked "vocals.flac"), .sweeper .removed,
      .sweeper .cleared]) (by decide)

end Stemd.Store
