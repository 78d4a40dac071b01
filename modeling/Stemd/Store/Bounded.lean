import Stemd.Store.Present

/-! What is on the disk and what the index says is there.

Every file with something in it belongs to an entry in the index, to the publish under way
or to an entry being deleted. What takes up more space than the index says, or less, is in
the hands of one of these two, or gone altogether. -/

set_option autoImplicit false

namespace Stemd.Store

open Stemd.Semantics

variable {Key : Type}

def Cache.Handles (cache : Cache Key) (key : Key) : Prop :=
  cache.publishing.replaces = some key ∨ cache.arriving = some key

def Deletes (_ : Cache Key) : Event Key → Prop
  | .sweeper .failed => False
  | _ => True

instance (cache : Cache Key) (event : Event Key) : Decidable (Deletes cache event) := by
  induction event using Event.casesOn with
  | sweeper step =>
      induction step using SweepStep.casesOn with
      | failed => exact inferInstanceAs (Decidable False)
      | _ => exact inferInstanceAs (Decidable True)
  | _ => exact inferInstanceAs (Decidable True)

variable [DecidableEq Key]

/-- A publish that fails does so before it begins to install, with nothing written. -/
def FailsClean (cache : Cache Key) : Event Key → Prop
  | .publisher .joined => match cache.publishing with
      | .writing key seq _ _ true => cache.disk.usageOf (.part key seq) = 0
      | _ => True
  | .publisher .failed => cache.publishing.replaces = none
  | _ => True

/-- Neither a deletion nor a publish leaves anything behind. -/
def Spotless (cache : Cache Key) (event : Event Key) : Prop :=
  Deletes cache event ∧ FailsClean cache event

instance (cache : Cache Key) (event : Event Key) : Decidable (FailsClean cache event) := by
  induction event using Event.casesOn with
  | publisher step =>
      induction step using PublishStep.casesOn with
      | joined =>
          unfold FailsClean
          generalize cache.publishing = publishing
          induction publishing using Publishing.casesOn with
          | writing key seq shipped todo failed =>
              induction failed using Bool.casesOn with
              | false => exact inferInstanceAs (Decidable True)
              | true =>
                  exact inferInstanceAs (Decidable (cache.disk.usageOf (.part key seq) = 0))
          | _ => exact inferInstanceAs (Decidable True)
      | failed => exact inferInstanceAs (Decidable (cache.publishing.replaces = none))
      | _ => exact inferInstanceAs (Decidable True)
  | _ => exact inferInstanceAs (Decidable True)

instance (cache : Cache Key) (event : Event Key) : Decidable (Spotless cache event) :=
  inferInstanceAs (Decidable (Deletes cache event ∧ FailsClean cache event))

def Cache.Emptied (cache : Cache Key) (key : Key) : Prop :=
  cache.disk.has (.entry key) = false ∨
    ∃ entry ∈ cache.sweep.removes, (cache.heap entry).key = key

def Cache.Lapsed (cache : Cache Key) (entry : Nat) : Prop :=
  cache.Handles (cache.heap entry).key ∨ cache.Emptied (cache.heap entry).key

def Cache.Placed (cache : Cache Key) (key : Key) (stems : List CachedStem) (bytes : Nat) : Prop :=
  ((∀ stem ∈ stems, (cache.disk.read (.entry key) stem.file).isSome = true) ∨
    cache.Emptied key) ∧ cache.disk.usageOf (.entry key) ≤ bytes

def Cache.Owns (cache : Cache Key) : Dir Key → Prop
  | .entry key => cache.Handles key ∨ (∃ entry ∈ cache.entries, (cache.heap entry).key = key) ∨
      ∃ entry ∈ cache.sweep.removes, (cache.heap entry).key = key
  | .part key seq => cache.publishing.staging = some (key, seq)

structure Accounted (cache : Cache Key) : Prop where
  owned : ∀ file ∈ cache.disk.files, file.2.content ≠ [] → cache.Owns file.1
  placed : ∀ entry ∈ cache.entries, cache.Handles (cache.heap entry).key ∨
    cache.Placed (cache.heap entry).key (cache.heap entry).stems (cache.heap entry).bytes
  building : ∀ key shipped, cache.publishing = .building key shipped →
    cache.Placed key (shipped.map Shipped.cached) (weight shipped)
  inserting : ∀ entry, cache.publishing = .inserting entry →
    cache.Placed (cache.heap entry).key (cache.heap entry).stems (cache.heap entry).bytes
  missing : ∀ entry ∈ cache.entries, .missing entry ∈ cache.getting → cache.Lapsed entry
  doomed : ∀ entry ∈ cache.entries, cache.sweep.Dooms entry → cache.Lapsed entry

structure Stays (cache after : Cache Key) (key : Key) : Prop where
  reads : (∀ name, after.disk.read (.entry key) name = cache.disk.read (.entry key) name) ∨
    after.Emptied key
  space : after.disk.usageOf (.entry key) ≤ cache.disk.usageOf (.entry key)
  emptied : cache.Emptied key → after.Emptied key

theorem Cache.Placed.stays {cache after : Cache Key} {key : Key} {stems : List CachedStem}
    {bytes : Nat} (placed : cache.Placed key stems bytes) (stays : Stays cache after key) :
    after.Placed key stems bytes := by
  refine ⟨?_, stays.space.trans placed.2⟩
  rcases placed.1 with whole | empty
  · refine stays.reads.imp (fun same stem member => ?_) id
    rw [same]
    exact whole stem member
  · exact .inr (stays.emptied empty)

theorem Stays.of_disk {cache after : Cache Key} {key : Key} (disk : after.disk = cache.disk)
    (removes : ∀ entry ∈ cache.sweep.removes, (cache.heap entry).key = key →
      after.Emptied key) : Stays cache after key := by
  refine ⟨.inl fun name => by rw [disk], by rw [disk], ?_⟩
  rintro (empty | ⟨entry, is, same⟩)
  · exact .inl (disk ▸ empty)
  · exact removes entry is same

theorem Accounted.step {cache after : Cache Key} (accounted : Accounted cache)
    (sound : Sound cache) (fixes : Fixes cache after) (sub : after.entries ⊆ cache.entries)
    (handles : ∀ key, cache.Handles key → after.Handles key)
    (stays : ∀ key, after.Handles key ∨ Stays cache after key)
    (leaves : ∀ entry ∈ cache.entries, entry ∈ after.entries ∨ after.Lapsed entry)
    (files : ∀ file ∈ after.disk.files, file.2.content ≠ [] → file ∈ cache.disk.files ∧
      (∀ key seq, file.1 = .part key seq → cache.publishing.staging = some (key, seq) →
        after.publishing.staging = some (key, seq)) ∨ after.Owns file.1)
    (building : ∀ key shipped, after.publishing = .building key shipped →
      after.Placed key (shipped.map Shipped.cached) (weight shipped))
    (inserting : ∀ entry, after.publishing = .inserting entry →
      after.Placed (after.heap entry).key (after.heap entry).stems (after.heap entry).bytes)
    (missing : ∀ entry ∈ after.entries, .missing entry ∈ after.getting →
      .missing entry ∈ cache.getting ∨ after.Lapsed entry)
    (dooms : ∀ entry ∈ after.entries, after.sweep.Dooms entry →
      cache.sweep.Dooms entry ∨ after.Lapsed entry) : Accounted after := by
  have lapsed : ∀ entry ∈ cache.entries, cache.Lapsed entry → after.Lapsed entry := by
    rintro entry member lapsed
    have key := fixes.key entry (sound.made entry member)
    unfold Cache.Lapsed at lapsed ⊢
    rw [key]
    rcases lapsed with handled | empty
    · exact .inl (handles _ handled)
    · exact (stays (cache.heap entry).key).imp id fun same => same.emptied empty
  refine ⟨fun file member full => ?_, fun entry member => ?_, building, inserting,
    fun entry member is => ?_, fun entry member is => ?_⟩
  · rcases files file member full with ⟨old, staging⟩ | owns
    · have owned := accounted.owned file old full
      obtain ⟨dir, content⟩ := file
      cases dir with
      | part key seq => exact staging key seq rfl owned
      | entry key =>
          have holds : after.disk.has (.entry key) = true :=
            Bool.eq_true_of_not_eq_false fun empty => Disk.has_eq_false.mp empty _ member rfl
          -- Whatever empties a directory with something in it is still at it.
          have emptied : after.Handles key ∨ after.Emptied key → after.Owns (.entry key) := by
            rintro (handled | empty | removes)
            · exact .inl handled
            · exact (Bool.false_ne_true (empty.symm.trans holds)).elim
            · exact .inr (.inr removes)
          rcases owned with handled | ⟨entry, inside, same⟩ | removes
          · exact .inl (handles key handled)
          · have key' := (fixes.key entry (sound.made entry inside)).trans same
            rcases leaves entry inside with stays' | lapsed
            · exact .inr (.inl ⟨entry, stays', key'⟩)
            · unfold Cache.Lapsed at lapsed
              rw [key'] at lapsed
              exact emptied lapsed
          · exact emptied ((stays key).imp id fun same => same.emptied (.inr removes))
    · exact owns
  · have before := sub member
    have known := sound.made entry before
    rw [fixes.key entry known, fixes.stems entry known, fixes.bytes entry known]
    rcases accounted.placed entry before with handled | placed
    · exact .inl (handles _ handled)
    · exact (stays (cache.heap entry).key).imp id placed.stays
  · exact (missing entry member is).elim
      (fun old => lapsed entry (sub member) (accounted.missing entry (sub member) old)) id
  · exact (dooms entry member is).elim
      (fun old => lapsed entry (sub member) (accounted.doomed entry (sub member) old)) id

theorem Stays.of_sweep {cache after : Cache Key} {key : Key} (sweep : after.sweep = cache.sweep)
    (heap : after.heap = cache.heap)
    (reads : ∀ name, after.disk.read (.entry key) name = cache.disk.read (.entry key) name)
    (space : after.disk.usageOf (.entry key) ≤ cache.disk.usageOf (.entry key))
    (has : cache.disk.has (.entry key) = false → after.disk.has (.entry key) = false) :
    Stays cache after key := by
  refine ⟨.inl reads, space, Or.imp has ?_⟩
  rw [sweep, heap]
  exact id

theorem Accounted.onward {cache after : Cache Key} (accounted : Accounted cache)
    (sound : Sound cache) (heap : after.heap = cache.heap) (made : after.made = cache.made)
    (entries : after.entries = cache.entries) (sweep : after.sweep = cache.sweep)
    (getting : after.getting = cache.getting)
    (handles : ∀ key, cache.Handles key → after.Handles key)
    (stays : ∀ key, after.Handles key ∨ Stays cache after key)
    (files : ∀ file ∈ after.disk.files, file.2.content ≠ [] → file ∈ cache.disk.files ∧
      (∀ key seq, file.1 = .part key seq → cache.publishing.staging = some (key, seq) →
        after.publishing.staging = some (key, seq)) ∨ after.Owns file.1)
    (building : ∀ key shipped, after.publishing = .building key shipped →
      after.Placed key (shipped.map Shipped.cached) (weight shipped))
    (inserting : ∀ entry, after.publishing ≠ .inserting entry) : Accounted after := by
  refine accounted.step sound (.of_eq made heap) (entries ▸ List.Subset.refl _) handles stays
    (fun entry member => .inl (entries ▸ member)) files building
    (fun entry is => (inserting entry is).elim) (fun entry _ is => .inl (getting ▸ is))
    fun entry _ dooms => .inl (sweep ▸ dooms)

theorem Accounted.proceed {cache : Cache Key} {publishing : Publishing Key} {seq : Nat}
    (accounted : Accounted cache) (sound : Sound cache)
    (handles : ∀ key, cache.Handles key → publishing.replaces = some key)
    (files : ∀ file ∈ cache.disk.files, file.2.content ≠ [] → ∀ key number,
      file.1 = .part key number → cache.publishing.staging = some (key, number) →
        publishing.staging = some (key, number))
    (building : ∀ key shipped, publishing ≠ .building key shipped)
    (inserting : ∀ entry, publishing ≠ .inserting entry) :
    Accounted { cache with seq := seq, publishing := publishing } :=
  accounted.onward sound rfl rfl rfl rfl rfl (fun key handled => .inl (handles key handled))
    (fun _ => .inr (.of_sweep rfl rfl (fun _ => rfl) (Nat.le_refl _) id))
    (fun file member full => .inl ⟨member, files file member full⟩)
    (fun key shipped is => (building key shipped is).elim) inserting

theorem Accounted.wrote {cache : Cache Key} {key : Key} {seq : Nat}
    {shipped todo todo' : List Shipped}
    {failed failed' : Bool} (accounted : Accounted cache) (sound : Sound cache) (file : File)
    (here : cache.publishing = .writing key seq shipped todo failed) :
    Accounted { cache with
      disk := cache.disk.write (.part key seq) file
      publishing := .writing key seq shipped todo' failed' } := by
  refine accounted.onward sound rfl rfl rfl rfl rfl (fun mine handled => ?_) (fun mine => .inr ?_)
    (fun other member _ => ?_) (fun _ _ is => by cases is) (fun _ is => by cases is)
  · simp [Cache.Handles, Cache.arriving, Publishing.replaces, here] at handled
  · refine .of_sweep rfl rfl (fun name => by simp [Disk.read_write]) ?_ fun empty =>
      Disk.has_write (fun same => by cases same) empty
    have grown : (cache.disk.write (.part key seq) file).usageOf (.entry mine) ≤
        cache.disk.usageOf (.entry mine) + _ := Disk.usageOf_write_le
    rwa [if_neg (fun same => by cases same), Nat.add_zero] at grown
  · rcases List.mem_cons.mp member with rfl | old
    · exact .inr rfl
    · refine .inl ⟨(List.mem_filter.mp old).1, fun mine number is staging => ?_⟩
      rw [here] at staging
      exact staging

theorem Accounted.renamed {cache : Cache Key} {key : Key} {seq : Nat} {shipped : List Shipped}
    (accounted : Accounted cache) (sound : Sound cache) (staged : Staged cache)
    (here : cache.publishing = .renaming key seq shipped)
    (absent : cache.disk.has (.entry key) = false) :
    Accounted { cache with
      disk := cache.disk.rename (.part key seq) (.entry key)
      publishing := .building key shipped } := by
  refine accounted.onward sound rfl rfl rfl rfl rfl (fun mine handled => ?_) (fun mine => ?_)
    (fun other member full => .inr ?_) (fun mine shipped' is => ?_) (fun _ is => by cases is)
  · simp only [Cache.Handles, Cache.arriving, Publishing.replaces, here] at handled ⊢
    exact handled.symm
  · by_cases same : mine = key
    · exact .inl (.inr (congrArg some same.symm))
    · have apart : (Dir.entry mine : Dir Key) ≠ .entry key := fun is => same (Dir.entry.inj is)
      refine .inr (.of_sweep rfl rfl (fun name => ?_) (Disk.usageOf_rename_other apart)
        (Disk.has_rename_other apart))
      simp [Disk.read_rename absent, same]
  · obtain ⟨old, inside, rfl⟩ := List.mem_map.mp member
    by_cases elsewhere : old.1 = .part key seq
    · rw [if_pos elsewhere]
      exact .inl (.inr rfl)
    · rw [if_neg elsewhere] at full ⊢
      have owned := accounted.owned old inside full
      obtain ⟨dir, content⟩ := old
      cases dir with
      | part mine number =>
          rw [Cache.Owns, here] at owned
          cases owned
          exact (elsewhere rfl).elim
      | entry mine =>
          refine owned.imp (fun handled => ?_) id
          simp only [Cache.Handles, Cache.arriving, Publishing.replaces, here] at handled ⊢
          exact handled.symm
  · cases is
    have space := staged.space key seq shipped [] (by rw [here]; rfl)
    refine ⟨.inl fun stem member => ?_, ?_⟩
    · obtain ⟨made, wanted, rfl⟩ := List.mem_map.mp member
      rw [Disk.read_rename absent, if_pos rfl]
      have there := staged.present key seq shipped [] (by rw [here]; rfl) made wanted
      exact there.resolve_left (by simp)
    · rw [Disk.usageOf_rename_target absent]
      exact (Nat.le_add_right _ _).trans space

theorem Accounted.built {cache : Cache Key} {key : Key} {shipped : List Shipped}
    (accounted : Accounted cache) (sound : Sound cache)
    (here : cache.publishing = .building key shipped) :
    Accounted { cache with
      heap := Function.update cache.heap cache.made (entryOf key shipped cache.clock)
      made := cache.made + 1
      publishing := .inserting cache.made } := by
  have fixes : Fixes cache { cache with
      heap := Function.update cache.heap cache.made (entryOf key shipped cache.clock)
      made := cache.made + 1
      publishing := .inserting cache.made } := .of_made rfl rfl
  have stays : ∀ mine, Stays cache { cache with
      heap := Function.update cache.heap cache.made (entryOf key shipped cache.clock)
      made := cache.made + 1
      publishing := .inserting cache.made } mine := fun mine =>
    .of_disk rfl fun entry is same =>
      .inr ⟨entry, is, (fixes.key entry (removes_made sound is)).trans same⟩
  refine accounted.step sound fixes (List.Subset.refl _) (fun mine handled => ?_)
    (fun mine => .inr (stays mine)) (fun _ member => .inl member)
    (fun file member _ => .inl ⟨member, fun _ _ _ is => ?_⟩) (fun _ _ is => by cases is)
    (fun entry is => ?_) (fun _ _ is => .inl is) (fun _ _ dooms => .inl dooms)
  · simpa [Cache.Handles, Cache.arriving, Publishing.replaces, here, entryOf] using handled
  · simp [Publishing.staging, here] at is
  · cases is
    simp only [Function.update_self]
    exact (accounted.building key shipped here).stays (stays key)

theorem Accounted.insert {cache : Cache Key} {entry : Nat} (accounted : Accounted cache)
    (collecting : Collecting cache) (free : cache.sweep = .free)
    (here : cache.publishing = .inserting entry) : Accounted (cache.indexed entry) := by
  have handled : ∀ key, cache.Handles key → key = (cache.heap entry).key := by
    rintro key (is | is)
    · simp [Publishing.replaces, here] at is
    · simpa [Cache.arriving, here, eq_comm] using is
  have swept : (cache.indexed entry).sweep = .free := free
  have others : ∀ other ∈ (cache.indexed entry).entries, other = entry ∨
      other ∈ cache.entries ∧ (cache.heap other).key ≠ (cache.heap entry).key := by
    intro other member
    rcases List.mem_append.mp member with old | new
    · obtain ⟨inside, apart⟩ := List.mem_filter.mp old
      exact .inr ⟨inside, of_decide_eq_true apart⟩
    · exact .inl (List.mem_singleton.mp new)
  have emptied : ∀ key, cache.Emptied key → (cache.indexed entry).Emptied key := fun key => id
  have mine := accounted.inserting entry here
  refine ⟨fun file member full => ?_, fun other member => .inr ?_, fun _ _ is => (by cases is),
    fun _ is => (by cases is), fun other member is => ?_, fun other _ dooms => ?_⟩
  · have owned := accounted.owned file member full
    obtain ⟨dir, content⟩ := file
    cases dir with
    | part key seq =>
        rw [Cache.Owns, here] at owned
        cases owned
    | entry key =>
        rcases owned with handles | ⟨old, inside, same⟩ | removes
        · exact .inr (.inl ⟨entry, List.mem_append_right _ (List.mem_singleton.mpr rfl),
            (handled key handles).symm⟩)
        · by_cases replaced : (cache.heap old).key = (cache.heap entry).key
          · exact .inr (.inl ⟨entry, List.mem_append_right _ (List.mem_singleton.mpr rfl),
              replaced.symm.trans same⟩)
          · exact .inr (.inl ⟨old, List.mem_append_left _
              (List.mem_filter.mpr ⟨inside, decide_eq_true replaced⟩), same⟩)
        · exact .inr (.inr removes)
  · rcases others other member with rfl | ⟨inside, apart⟩
    · exact mine
    · exact (accounted.placed other inside).resolve_left fun handles => apart (handled _ handles)
  · rcases others other member with rfl | ⟨inside, apart⟩
    · exact ((collecting.known _ is other rfl).2 here).elim
    · exact .inr ((accounted.missing other inside is).resolve_left
        fun handles => apart (handled _ handles))
  · rw [swept] at dooms
    exact dooms.elim

theorem Accounted.advance {cache after : Cache Key} (accounted : Accounted cache)
    (sound : Sound cache) (fixes : Fixes cache after) (sub : after.entries ⊆ cache.entries)
    (publishing : after.publishing = cache.publishing ∨
      (∃ entry, cache.publishing = .capping entry) ∧ after.publishing = .idle)
    (files : after.disk.files ⊆ cache.disk.files) (stays : ∀ key, Stays cache after key)
    (leaves : ∀ entry ∈ cache.entries, entry ∈ after.entries ∨ after.Lapsed entry)
    (missing : ∀ entry ∈ after.entries, .missing entry ∈ after.getting →
      .missing entry ∈ cache.getting ∨ after.Lapsed entry)
    (dooms : ∀ entry ∈ after.entries, after.sweep.Dooms entry →
      cache.sweep.Dooms entry ∨ after.Lapsed entry) : Accounted after := by
  have same : ∀ publishing', after.publishing = publishing' → publishing' ≠ .idle →
      cache.publishing = publishing' := by
    rintro publishing' is busy
    rcases publishing with same | ⟨-, idle⟩
    · exact same ▸ is
    · exact (busy (is.symm.trans idle)).elim
  refine accounted.step sound fixes sub (fun key handled => ?_) (fun key => .inr (stays key)) leaves
    (fun file member _ => .inl ⟨files member, fun key seq _ is => ?_⟩) (fun key shipped is => ?_)
    (fun entry is => ?_) missing dooms
  · refine handled.imp (fun replaced => ?_) fun arrives => ?_
    · rcases publishing with same | ⟨⟨entry, capping⟩, -⟩
      · exact same ▸ replaced
      · simp [Publishing.replaces, capping] at replaced
    · rw [arriving_eq sound fixes publishing]
      exact arrives
  · rcases publishing with same | ⟨⟨entry, capping⟩, -⟩
    · exact same ▸ is
    · rw [capping] at is
      cases is
  · exact (accounted.building key shipped (same _ is (fun idle => by cases idle))).stays (stays key)
  · have here := same _ is (fun idle => by cases idle)
    have known := (sound.pending entry here).1
    rw [fixes.key entry known, fixes.stems entry known, fixes.bytes entry known]
    exact (accounted.inserting entry here).stays (stays _)

theorem Accounted.pass {cache after : Cache Key} (accounted : Accounted cache)
    (sound : Sound cache) (fixes : Fixes cache after) (entries : after.entries = cache.entries)
    (getting : after.getting = cache.getting) (disk : after.disk = cache.disk)
    (publishing : after.publishing = cache.publishing ∨
      (∃ entry, cache.publishing = .capping entry) ∧ after.publishing = .idle)
    (removes : ∀ entry ∈ cache.sweep.removes, after.Emptied (cache.heap entry).key)
    (dooms : ∀ entry ∈ after.entries, after.sweep.Dooms entry →
      cache.sweep.Dooms entry ∨ after.Lapsed entry) : Accounted after :=
  accounted.advance sound fixes (entries ▸ List.Subset.refl _) publishing
    (disk ▸ List.Subset.refl _) (fun _ => .of_disk disk fun entry is same =>
      same ▸ removes entry is) (fun _ member => .inl (entries ▸ member))
    (fun _ _ is => .inl (getting ▸ is)) dooms

theorem Accounted.release {cache : Cache Key} (accounted : Accounted cache) (sound : Sound cache)
    (unswept : cache.sweep.removes = none) : Accounted cache.release :=
  accounted.pass sound (.of_eq rfl rfl) rfl rfl rfl cache.release_publishing
    (fun _ is => by cases unswept.symm.trans is) (fun _ _ dooms => dooms.elim)

theorem Accounted.caps {cache after : Cache Key} {order : List Nat} (accounted : Accounted cache)
    (sound : Sound cache) (unswept : cache.sweep.removes = none) (caps : cache.Caps order after) :
    Accounted after := by
  cases caps with
  | fits fits => exact accounted.release sound unswept
  | exceeds exceeds =>
      exact accounted.pass sound (.of_eq rfl rfl) rfl rfl rfl (.inl rfl)
        (fun _ is => by cases unswept.symm.trans is) (fun _ _ dooms => dooms.elim)

theorem Publishing.Fails.clean {cache : Cache Key} {step : PublishStep}
    {key : Key} (fails : cache.publishing.Fails step key)
    (clean : FailsClean cache (.publisher step)) : cache.publishing.replaces = none ∧
      ∀ mine seq, cache.publishing.staging = some (mine, seq) →
        cache.disk.usageOf (.part mine seq) = 0 := by
  unfold FailsClean at clean
  generalize cache.publishing = publishing at fails clean ⊢
  cases fails with
  | writing key seq shipped =>
      refine ⟨rfl, fun mine number is => ?_⟩
      cases is
      exact clean
  | converting _ _ | creating _ _ => exact ⟨rfl, fun _ _ is => by cases is⟩
  | _ => cases clean

theorem Accounted.publishes {cache after : Cache Key} {step : PublishStep}
    (accounted : Accounted cache) (sound : Sound cache) (staged : Staged cache)
    (collecting : Collecting cache) (clean : FailsClean cache (.publisher step))
    (publishes : Publishes cache step after) : Accounted after := by
  have idle : cache.publishing.replaces = none → cache.arriving = none →
      ∀ key, ¬ cache.Handles key := by
    rintro replaces arriving key (is | is)
    · cases replaces.symm.trans is
    · cases arriving.symm.trans is
  cases publishes with
  | converted _ _ here | created _ _ here | joined _ _ _ here | replacing _ _ _ here _
  | fresh _ _ _ here _ =>
      refine accounted.proceed sound (fun key handled => ?_) (fun _ _ _ _ _ _ is => ?_)
        (fun _ _ is => by cases is) (fun _ is => by cases is)
      · exact (idle (by rw [here]; rfl) (by simp [Cache.arriving, here]) key handled).elim
      · rw [here] at is
        first | exact is | cases is
  | emptied _ _ _ here _ =>
      refine accounted.proceed sound (fun key handled => ?_) (fun _ _ _ _ _ _ is => ?_)
        (fun _ _ is => by cases is) (fun _ is => by cases is)
      · simpa [Cache.Handles, Cache.arriving, Publishing.replaces, here] using handled
      · rw [here] at is
        exact is
  | wrote key seq shipped todo failed thread stem here running =>
      exact accounted.wrote sound ⟨stem.file, stem.content⟩ here
  | spoiled key seq shipped todo failed thread stem left here running =>
      cases left with
      | some content => exact accounted.wrote sound ⟨stem.file, content⟩ here
      | none =>
          refine accounted.proceed sound (fun mine handled => ?_) (fun _ _ _ _ _ _ is => ?_)
            (fun _ _ is => by cases is) (fun _ is => by cases is)
          · exact (idle (by rw [here]; rfl) (by simp [Cache.arriving, here]) mine handled).elim
          · rw [here] at is
            exact is
  | unlinked key seq shipped name here =>
      refine accounted.onward sound rfl rfl rfl rfl rfl (fun mine handled => ?_) (fun mine => ?_)
        (fun file member _ => .inl ⟨(List.mem_filter.mp member).1, fun _ _ _ is => ?_⟩)
        (fun _ _ is => by cases is) (fun _ is => by cases is)
      · simpa [Cache.Handles, Cache.arriving, Publishing.replaces, here] using handled
      · by_cases same : mine = key
        · exact .inl (.inl (congrArg some same.symm))
        · refine .inr (.of_sweep rfl rfl (fun name' => ?_) Disk.usageOf_unlink_le Disk.has_unlink)
          simp [Disk.read_unlink, Ne.symm same]
      · rw [here] at is
        exact is
  | renamed key seq shipped here absent => exact accounted.renamed sound staged here absent
  | built key shipped here => exact accounted.built sound here
  | inserted entry order after here free iterates caps =>
      exact (accounted.insert collecting free here).caps (sound.insert free here)
        (by change cache.sweep.removes = none; rw [free]; rfl) caps
  | failed key seq fails later =>
      obtain ⟨replaces, unused⟩ := fails.clean clean
      refine accounted.proceed sound (fun mine handled => ?_)
        (fun file member full mine number is staging => ?_) (fun _ _ is => by cases is)
        (fun _ is => by cases is)
      · exact (idle replaces fails.arriving mine handled).elim
      · exact (full (Disk.content_eq_nil (unused mine number staging) member is)).elim

theorem stays_or_lapses {after : Cache Key} {entry : Nat} {entries : List Nat}
    (lapsed : after.Lapsed entry) :
    ∀ other ∈ entries, other ∈ entries.filter (· ≠ entry) ∨ after.Lapsed other := by
  intro other member
  by_cases same : other = entry
  · exact .inr (same ▸ lapsed)
  · exact .inl (List.mem_filter.mpr ⟨member, decide_eq_true same⟩)

theorem stays_of_unswept {cache after : Cache Key} (unswept : cache.sweep.removes = none)
    (disk : after.disk = cache.disk) (key : Key) : Stays cache after key :=
  .of_disk disk fun entry is => by cases unswept.symm.trans is

theorem Accounted.sweeps {cache after : Cache Key} {step : SweepStep}
    (accounted : Accounted cache) (sound : Sound cache) (deletes : Deletes cache (.sweeper step))
    (sweeps : Sweeps cache step after) : Accounted after := by
  have fixes := (Move.sweeper sweeps).fixes
  cases sweeps with
  | weighing _ _ _ here | read _ _ _ here | kept _ _ _ _ here | condemned _ _ _ _ here _
  | sorted _ here =>
      exact accounted.pass sound fixes rfl rfl rfl (.inl rfl)
        (fun _ is => by rw [here] at is; cases is) (fun _ _ dooms => dooms.elim)
  | reaped now entry todo here =>
      refine accounted.pass sound fixes rfl rfl rfl (.inl rfl)
        (fun _ is => by rw [here] at is; cases is) fun other member dooms => .inr ?_
      cases dooms
      exact .inr (.inr ⟨entry, rfl, rfl⟩)
  | emptied entry todo here =>
      refine accounted.pass sound fixes rfl rfl rfl (.inl rfl)
        (fun _ is => by rw [here] at is; cases is) fun other member dooms => ?_
      by_cases same : other = entry
      · subst same
        exact .inr (.inr (.inr ⟨other, rfl, rfl⟩))
      · rw [here]
        exact .inl fun inside => dooms ((List.mem_cons.mp inside).resolve_left same)
  | unlinked entry rest name here =>
      have removes : cache.sweep.removes = some entry := by rw [here]; rfl
      refine accounted.advance sound fixes (List.Subset.refl _) (.inl rfl)
        (fun file member => (List.mem_filter.mp member).1) (fun key => ⟨?_, ?_, ?_⟩)
        (fun _ member => .inl member) (fun _ _ is => .inl is) (fun _ _ dooms => .inl dooms)
      · by_cases same : (cache.heap entry).key = key
        · exact .inr (.inr ⟨entry, removes, same⟩)
        · exact .inl fun name' => by simp [Disk.read_unlink, same]
      · exact Disk.usageOf_unlink_le
      · exact Or.imp Disk.has_unlink id
  | removed entry rest here absent =>
      have removes : ∀ other ∈ cache.sweep.removes,
          cache.disk.has (.entry (cache.heap other).key) = false := fun other is => by
        rw [here] at is
        cases is
        exact absent
      cases rest with
      | ageing now todo =>
          exact accounted.advance sound fixes List.filter_sublist.subset (.inl rfl)
            (List.Subset.refl _) (fun _ => .of_disk rfl fun other is same =>
              .inl (same ▸ removes other is)) (stays_or_lapses (.inr (.inl absent)))
            (fun _ _ is => .inl is) (fun _ _ dooms => dooms.elim)
      | rotating read victims total =>
          exact accounted.pass sound fixes rfl rfl rfl (.inl rfl)
            (fun other is => .inl (removes other is)) (fun _ _ dooms => dooms.elim)
      | clearing todo =>
          exact accounted.pass sound fixes rfl rfl rfl (.inl rfl)
            (fun other is => .inl (removes other is))
            fun _ _ dooms => .inl (by rw [here]; exact dooms)
  | failed _ _ _ => exact deletes.elim
  | aged now order after here iterates caps => exact accounted.caps sound (by rw [here]; rfl) caps
  | released read victims total here enough => exact accounted.release sound (by rw [here]; rfl)
  | rotated read entry victims total here exceeds =>
      exact accounted.advance sound fixes List.filter_sublist.subset (.inl rfl)
        (List.Subset.refl _) (stays_of_unswept (by rw [here]; rfl) rfl)
        (stays_or_lapses (.inr (.inr ⟨entry, rfl, rfl⟩))) (fun _ _ is => .inl is)
        (fun _ _ dooms => dooms.elim)
  | cleared here =>
      refine accounted.advance sound fixes (List.nil_subset _) (.inl rfl) (List.Subset.refl _)
        (stays_of_unswept (by rw [here]; rfl) rfl) (fun other member => .inr ?_)
        (fun _ member => by cases member) (fun _ member => by cases member)
      -- Every directory is empty by now, or a publish has put a new one there.
      have lapsed := accounted.doomed other member (by rw [here]; exact List.not_mem_nil)
      refine lapsed.imp id fun empty => .inl (empty.resolve_right ?_)
      rintro ⟨entry, is, -⟩
      rw [here] at is
      cases is

theorem Cache.Lapsed.congr {cache after : Cache Key} {entry : Nat} (lapsed : cache.Lapsed entry)
    (publishing : after.publishing = cache.publishing) (sweep : after.sweep = cache.sweep)
    (disk : after.disk = cache.disk)
    (keys : ∀ entry, (after.heap entry).key = (cache.heap entry).key) : after.Lapsed entry := by
  simpa only [Cache.Lapsed, Cache.Handles, Cache.arriving, Cache.Emptied, publishing, sweep, disk,
    keys] using lapsed

theorem Accounted.gets {cache after : Cache Key} {getting next : Getting Key} {caller : Nat}
    (accounted : Accounted cache) (sound : Sound cache) (collecting : Collecting cache)
    (here : cache.getting[caller]? = some getting)
    (gets : Gets cache caller getting after next) :
    Accounted { after with getting := after.getting.set caller next } := by
  have fixes := (Move.getter caller here gets).fixes
  have mine := List.mem_of_getElem? here
  have before : ∀ entry, .missing entry ∈ cache.getting.set caller next →
      .missing entry ∈ cache.getting ∨ next = .missing entry := fun entry member =>
    (List.mem_or_eq_of_mem_set member).imp id Eq.symm
  have stays : ∀ {getting' : List (Getting Key)} (key : Key),
      Stays cache { cache with getting := getting' } key := fun key =>
    .of_disk rfl fun entry is same => .inr ⟨entry, is, same⟩
  cases gets with
  | hit key entry free found =>
      exact accounted.advance sound fixes (List.Subset.refl _) (.inl rfl) (List.Subset.refl _)
        (stays_of_unswept (by rw [free]; rfl) rfl) (fun _ member => .inl member)
        (fun other _ is => .inl ((before other is).resolve_right fun is => by cases is))
        (fun _ _ dooms => dooms.elim)
  | touched entry now held =>
      exact accounted.advance sound fixes (List.Subset.refl _) (.inl rfl) (List.Subset.refl _)
        (stays_of_unswept (by rw [held]; rfl) rfl) (fun _ member => .inl member)
        (fun other _ is => .inl ((before other is).resolve_right fun is => by cases is))
        (fun _ _ dooms => dooms.elim)
  | dropped entry free held =>
      have lapsed := accounted.missing entry (lookup_eq_some held).1 mine
      exact accounted.advance sound fixes List.filter_sublist.subset (.inl rfl)
        (List.Subset.refl _) (stays_of_unswept (by rw [free]; rfl) rfl)
        (stays_or_lapses (lapsed.congr rfl rfl rfl (evict_key cache entry)))
        (fun other _ is => .inl ((before other is).resolve_right fun is => by cases is))
        (fun _ _ dooms => .inl dooms)
  | absent entry stem todo absent =>
      refine accounted.advance sound fixes (List.Subset.refl _) (.inl rfl) (List.Subset.refl _)
        stays (fun _ member => .inl member) (fun other member is => ?_)
        (fun _ _ dooms => .inl dooms)
      refine (before other is).imp id fun is => ?_
      cases is
      -- A file that the index goes by is missing only where somebody is at it.
      rcases accounted.placed entry member with handled | ⟨whole | empty, -⟩
      · exact .inl handled
      · have there := whole stem (collecting.stems entry (stem :: todo) mine List.mem_cons_self)
        exact (Bool.false_ne_true (absent.symm.trans there)).elim
      · exact .inr empty
  | missed _ _ | found _ | seen _ _ _ | replaced _ =>
      exact accounted.advance sound fixes (List.Subset.refl _) (.inl rfl) (List.Subset.refl _)
        stays (fun _ member => .inl member)
        (fun other _ is => .inl ((before other is).resolve_right fun is => by cases is))
        (fun _ _ dooms => .inl dooms)

theorem Accounted.move {cache after : Cache Key} {event : Event Key}
    (accounted : Accounted cache) (sound : Sound cache) (staged : Staged cache)
    (collecting : Collecting cache) (spotless : Spotless cache event)
    (move : Move cache event after) : Accounted after := by
  have fixes := move.fixes
  cases move with
  | publish key shipped idle =>
      refine accounted.proceed sound (fun mine handled => ?_) (fun _ _ _ _ _ _ is => ?_)
        (fun _ _ is => by cases is) (fun _ is => by cases is)
      · rcases idle with idle | ⟨failed, idle⟩ <;>
          simp [Cache.Handles, Cache.arriving, Publishing.replaces, idle] at handled
      · rcases idle with idle | ⟨failed, idle⟩ <;> simp [Publishing.staging, idle] at is
  | publisher publishes => exact accounted.publishes sound staged collecting spotless.2 publishes
  | ages order free iterates =>
      exact accounted.pass sound fixes rfl rfl rfl (.inl rfl)
        (fun _ is => by rw [free] at is; cases is) (fun _ _ dooms => dooms.elim)
  | caps order after free iterates caps => exact accounted.caps sound (by rw [free]; rfl) caps
  | clear order free iterates =>
      exact accounted.pass sound fixes rfl rfl rfl (.inl rfl)
        (fun _ is => by rw [free] at is; cases is)
        fun _ member dooms => (dooms (iterates.symm.subset member)).elim
  | sweeper sweeps => exact accounted.sweeps sound spotless.1 sweeps
  | getter caller here gets => exact accounted.gets sound collecting here gets
  | get key =>
      refine accounted.advance sound fixes (List.Subset.refl _) (.inl rfl) (List.Subset.refl _)
        (fun mine => .of_disk rfl fun entry is same => .inr ⟨entry, is, same⟩)
        (fun _ member => .inl member) (fun other _ is => .inl ?_) (fun _ _ dooms => .inl dooms)
      rcases List.mem_append.mp is with old | new
      · exact old
      · cases List.mem_singleton.mp new
  | fetch entry name known =>
      exact accounted.pass sound fixes rfl rfl rfl (.inl rfl)
        (fun other is => .inr ⟨other, is, fixes.key other (removes_made sound is)⟩)
        (fun _ _ dooms => .inl dooms)
  | tick =>
      exact accounted.pass sound fixes rfl rfl rfl (.inl rfl)
        (fun entry is => .inr ⟨entry, is, rfl⟩) (fun _ _ dooms => .inl dooms)

/-- Outside a publish, whatever is on the disk is an entry's that the index has. -/
theorem Accounted.indexed {cache : Cache Key} (accounted : Accounted cache) (sound : Sound cache)
    (sized : Sized cache)
    (settled : cache.publishing = .idle ∨ ∃ key, cache.publishing = .failed key) :
    (∀ key, ¬ cache.Handles key) ∧ ∀ file ∈ cache.disk.files, file.2.content ≠ [] →
      ∃ entry ∈ cache.entries, file.1 = .entry (cache.heap entry).key := by
  have idle : ∀ key, ¬ cache.Handles key := by
    rcases settled with is | ⟨key, is⟩ <;>
      simp [Cache.Handles, Cache.arriving, Publishing.replaces, is]
  refine ⟨idle, fun file member full => ?_⟩
  have owned := accounted.owned file member full
  obtain ⟨dir, content⟩ := file
  cases dir with
  | part key seq =>
      rcases settled with is | ⟨key, is⟩ <;> simp [Cache.Owns, is, Publishing.staging] at owned
  | entry key =>
      rcases owned with handled | ⟨entry, inside, same⟩ | ⟨entry, is, same⟩
      · exact (idle key handled).elim
      · exact ⟨entry, inside, congrArg Dir.entry same.symm⟩
      · have swept := sound.swept
        unfold Sweep.removes at is
        split at is
        · rename_i other rest here
          cases is
          rw [here] at swept
          cases rest with
          | rotating read victims total =>
              obtain ⟨own, capping⟩ := sized.victim entry read victims total here
              rcases settled with is | ⟨key, is⟩ <;> cases is.symm.trans capping
          | ageing _ _ | clearing _ =>
              exact ⟨entry, swept.2 List.mem_cons_self, congrArg Dir.entry same.symm⟩
        · cases is

section runs

variable [Inhabited Key] {maxBytes unfetchedTtl : Nat}

theorem accounted_of_reaches {cache : Cache Key}
    (run : (Cache.system maxBytes unfetchedTtl).Reaches Spotless (.new maxBytes unfetchedTtl)
      cache) : Accounted cache :=
  run.invariant ⟨fun _ member => (by cases member), fun _ member => (by cases member),
      fun _ _ is => (by cases is), fun _ is => (by cases is), fun _ member => (by cases member),
      fun _ member => by cases member⟩
    fun _ _ _ before accounted spotless done => accounted.move (sound_of_reaches before)
      (staged_of_reaches before) (collecting_of_reaches before) spotless (move_of_step done)

/-- Outside a publish, what is on the disk fits, or is one entry's, and no file is left that the
index does not know of. -/
theorem disk_bounded {cache : Cache Key}
    (run : (Cache.system maxBytes unfetchedTtl).Reaches Spotless (.new maxBytes unfetchedTtl)
      cache) (settled : cache.publishing = .idle ∨ ∃ key, cache.publishing = .failed key) :
    (cache.disk.usage ≤ maxBytes ∨ ∃ recent, cache.entries = [recent] ∧
      cache.disk.usage ≤ (cache.heap recent).bytes) ∧
        ∀ file ∈ cache.disk.files, file.2.content ≠ [] →
          ∃ entry ∈ cache.entries, file.1 = .entry (cache.heap entry).key := by
  have accounted := accounted_of_reaches run
  have sized := sized_of_reaches run
  obtain ⟨idle, known⟩ := accounted.indexed (sound_of_reaches run) sized settled
  refine ⟨?_, known⟩
  have used : cache.disk.usage ≤ cache.totalBytes := by
    have held : ∀ file ∈ cache.disk.files, file.2.content ≠ [] →
        file.1 ∈ cache.entries.map fun entry => Dir.entry (cache.heap entry).key :=
      fun file member full => by
        obtain ⟨entry, inside, is⟩ := known file member full
        exact List.mem_map.mpr ⟨entry, inside, is.symm⟩
    refine (Disk.usage_le _ held).trans ?_
    rw [List.map_map]
    refine List.sum_le_sum fun entry member => ?_
    exact ((accounted.placed entry member).resolve_left (idle _)).2
  have limit := (settings_of_reaches run).1
  rcases sized.fits with fits | few | ⟨own, capping⟩
  · exact .inl (limit ▸ used.trans fits)
  · cases entries : cache.entries with
    | nil =>
        refine .inl (used.trans ?_)
        simp [Cache.totalBytes, Cache.bytes, entries]
    | cons recent rest =>
        have none : rest = [] := by simpa [entries] using few
        subst none
        refine .inr ⟨recent, rfl, used.trans (Nat.le_of_eq ?_)⟩
        simp [Cache.totalBytes, Cache.bytes, entries]
  · rcases settled with is | ⟨key, is⟩ <;> cases is.symm.trans capping

end runs

/-- One entry stands, though it is larger than all there should be. -/
theorem large_entry_is_alone : ∃ cache : Cache Nat, 2 < cache.disk.usage ∧
    (cache.disk.usage ≤ 2 ∨ ∃ recent, cache.entries = [recent] ∧
      cache.disk.usage ≤ (cache.heap recent).bytes) ∧
        ∀ file ∈ cache.disk.files, file.2.content ≠ [] →
          ∃ entry ∈ cache.entries, file.1 = .entry (cache.heap entry).key := by
  have reached : ∃ cache : Cache Nat, (Cache.system 2 1).Reaches Spotless (.new 2 1) cache ∧
      cache.publishing = .idle ∧ 2 < cache.disk.usage :=
    System.exists_of_replay (published 7 vocals ++ [.publisher (.inserted [0]), .sweeper .read,
      .sweeper .sorted, .sweeper .rotated] ++ published 8 vocals ++ [.publisher (.inserted [0, 1]),
        .sweeper .read, .sweeper .read, .sweeper .sorted, .sweeper .rotated,
        .sweeper (.unlinked "vocals.flac"), .sweeper .removed, .sweeper .rotated]) (by decide)
  obtain ⟨cache, run, idle, large⟩ := reached
  exact ⟨cache, large, disk_bounded run (.inl idle)⟩

/-- One stem is written, the other is not, and the first stays where it is. -/
theorem failed_publish_leaves_bytes : ∃ cache : Cache Nat,
    (Cache.system 2 1).Reaches Deletes (.new 2 1) cache ∧ cache.publishing = .failed 7 ∧
      cache.entries = [] ∧ 2 < cache.disk.usage :=
  System.exists_of_replay [.publish 7 [vocals, ⟨"drums", "drums.flac", [102, 76, 97, 67]⟩],
    .publisher .converted, .publisher .created, .publisher (.wrote 0),
    .publisher (.spoiled 0 none), .publisher .joined] (by decide)

end Stemd.Store
