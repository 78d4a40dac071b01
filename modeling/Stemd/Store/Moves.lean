import Stemd.Store.Cache

/-! What each step of the cache does, with what it has looked at. -/

set_option autoImplicit false

namespace Stemd.Store

open Stemd.Semantics
open Stemd.Semantics.Framing

variable {Key : Type}

namespace Cache

theorem change_heap (cache : Cache Key) (entry other : Nat) (f : Entry Key → Entry Key) :
    (cache.change entry f).heap other =
      if other = entry then f (cache.heap entry) else cache.heap other := by
  simp only [change, Function.update_apply]

theorem change_read {α : Type} (cache : Cache Key) (read : Entry Key → α) {entry : Nat}
    {f : Entry Key → Entry Key} (kept : read (f (cache.heap entry)) = read (cache.heap entry))
    (other : Nat) : read ((cache.change entry f).heap other) = read (cache.heap other) := by
  rw [change_heap]
  split
  · rename_i same
    rw [same]
    exact kept
  · rfl

theorem release_publishing (cache : Cache Key) : cache.release.publishing = cache.publishing ∨
    (∃ entry, cache.publishing = .capping entry) ∧ cache.release.publishing = .idle := by
  unfold release
  split
  · rename_i entry capping
    exact .inr ⟨⟨entry, capping⟩, rfl⟩
  · exact .inl rfl

inductive Caps (cache : Cache Key) (order : List Nat) : Cache Key → Prop where
  | fits (fits : cache.totalBytes ≤ cache.maxBytes) : Caps cache order cache.release
  | exceeds (exceeds : cache.maxBytes < cache.totalBytes) :
      Caps cache order { cache with sweep := .reading order [] }

theorem enforceCap_caps (cache : Cache Key) (order : List Nat) :
    cache.Caps order (cache.enforceCap order) := by
  unfold enforceCap
  split
  · rename_i fits
    exact .fits fits
  · rename_i exceeds
    exact .exceeds (Nat.lt_of_not_le exceeds)

end Cache

/-- Where a publish can fail, and in which step. -/
inductive Publishing.Fails : Publishing Key → PublishStep → Key → Prop where
  | converting (key : Key) (shipped : List Shipped) : Fails (.converting key shipped) .failed key
  | creating (key : Key) (shipped : List Shipped) : Fails (.creating key shipped) .failed key
  | writing (key : Key) (seq : Nat) (shipped : List Shipped) :
      Fails (.writing key seq shipped [] true) .joined key
  | replacing (key : Key) (seq : Nat) (shipped : List Shipped) :
      Fails (.replacing key seq shipped) .failed key
  | renaming (key : Key) (seq : Nat) (shipped : List Shipped) :
      Fails (.renaming key seq shipped) .failed key

theorem Publishing.Fails.step {publishing : Publishing Key} {step : PublishStep} {key : Key}
    (fails : publishing.Fails step key) : step = .joined ∨ step = .failed := by
  cases fails
  case writing => exact .inl rfl
  all_goals exact .inr rfl

def leaves [DecidableEq Key] (disk : Disk (Dir Key)) (dir : Dir Key) (file : String) :
    Option Bytes → Disk (Dir Key)
  | some content => disk.write dir ⟨file, content⟩
  | none => disk

def entryOf (key : Key) (shipped : List Shipped) (now : Nat) : Entry Key where
  key := key
  stems := shipped.map Shipped.cached
  bytes := (shipped.map fun stem => stem.content.length).sum
  evicted := false
  unfetched := shipped.map (·.name)
  lastUsed := now

def Cache.indexed [DecidableEq Key] (cache : Cache Key) (entry : Nat) : Cache Key :=
  { cache.insert entry with publishing := .capping entry }

variable [DecidableEq Key]

inductive Publishes (cache : Cache Key) : PublishStep → Cache Key → Prop where
  | converted (key : Key) (shipped : List Shipped)
      (here : cache.publishing = .converting key shipped) :
      Publishes cache .converted { cache with publishing := .creating key shipped }
  | created (key : Key) (shipped : List Shipped)
      (here : cache.publishing = .creating key shipped) :
      Publishes cache .created { cache with
        seq := cache.seq + 1
        publishing := .writing key cache.seq shipped shipped false }
  | wrote (key : Key) (seq : Nat) (shipped todo : List Shipped) (failed : Bool) (thread : Nat)
      (stem : Shipped) (here : cache.publishing = .writing key seq shipped todo failed)
      (running : todo[thread]? = some stem) :
      Publishes cache (.wrote thread) { cache with
        disk := cache.disk.write (.part key seq) ⟨stem.file, stem.content⟩
        publishing := .writing key seq shipped (todo.eraseIdx thread) failed }
  | spoiled (key : Key) (seq : Nat) (shipped todo : List Shipped) (failed : Bool) (thread : Nat)
      (stem : Shipped) (left : Option Bytes)
      (here : cache.publishing = .writing key seq shipped todo failed)
      (running : todo[thread]? = some stem) :
      Publishes cache (.spoiled thread left) { cache with
        disk := leaves cache.disk (.part key seq) stem.file left
        publishing := .writing key seq shipped (todo.eraseIdx thread) true }
  | joined (key : Key) (seq : Nat) (shipped : List Shipped)
      (here : cache.publishing = .writing key seq shipped [] false) :
      Publishes cache .joined { cache with publishing := .installing key seq shipped }
  | replacing (key : Key) (seq : Nat) (shipped : List Shipped)
      (here : cache.publishing = .installing key seq shipped)
      (there : cache.disk.has (.entry key) = true) :
      Publishes cache .looked { cache with publishing := .replacing key seq shipped }
  | fresh (key : Key) (seq : Nat) (shipped : List Shipped)
      (here : cache.publishing = .installing key seq shipped)
      (absent : cache.disk.has (.entry key) = false) :
      Publishes cache .looked { cache with publishing := .renaming key seq shipped }
  | unlinked (key : Key) (seq : Nat) (shipped : List Shipped) (name : String)
      (here : cache.publishing = .replacing key seq shipped) :
      Publishes cache (.unlinked name) { cache with
        disk := cache.disk.unlink (.entry key) name
        publishing := .replacing key seq shipped }
  | emptied (key : Key) (seq : Nat) (shipped : List Shipped)
      (here : cache.publishing = .replacing key seq shipped)
      (absent : cache.disk.has (.entry key) = false) :
      Publishes cache .emptied { cache with publishing := .renaming key seq shipped }
  | renamed (key : Key) (seq : Nat) (shipped : List Shipped)
      (here : cache.publishing = .renaming key seq shipped)
      (absent : cache.disk.has (.entry key) = false) :
      Publishes cache .renamed { cache with
        disk := cache.disk.rename (.part key seq) (.entry key)
        publishing := .building key shipped }
  | built (key : Key) (shipped : List Shipped)
      (here : cache.publishing = .building key shipped) :
      Publishes cache .built { cache with
        heap := Function.update cache.heap cache.made (entryOf key shipped cache.clock)
        made := cache.made + 1
        publishing := .inserting cache.made }
  | inserted (entry : Nat) (order : List Nat) (after : Cache Key)
      (here : cache.publishing = .inserting entry) (free : cache.sweep = .free)
      (iterates : (cache.indexed entry).Iterates order)
      (caps : (cache.indexed entry).Caps order after) : Publishes cache (.inserted order) after
  | failed {step : PublishStep} (key : Key) (seq : Nat)
      (fails : cache.publishing.Fails step key) (later : cache.seq ≤ seq) :
      Publishes cache step { cache with seq := seq, publishing := .failed key }

theorem publishes_of_step {cache after : Cache Key} {step : PublishStep}
    (done : cache.publishStep step = some after) : Publishes cache step after := by
  cases step with
  | converted =>
      simp only [Cache.publishStep] at done
      split at done <;> cases done
      rename_i key shipped here
      exact .converted key shipped here
  | created =>
      simp only [Cache.publishStep] at done
      split at done <;> cases done
      rename_i key shipped here
      exact .created key shipped here
  | wrote thread =>
      simp only [Cache.publishStep] at done
      split at done
      · rename_i key seq shipped todo failed here
        obtain ⟨stem, running, rfl⟩ := Option.map_eq_some_iff.mp done
        exact .wrote key seq shipped todo failed thread stem here running
      · cases done
  | spoiled thread left =>
      simp only [Cache.publishStep] at done
      split at done
      · rename_i key seq shipped todo failed here
        obtain ⟨stem, running, rfl⟩ := Option.map_eq_some_iff.mp done
        have same := Publishes.spoiled key seq shipped todo failed thread stem left here running
        cases left <;> exact same
      · cases done
  | joined =>
      simp only [Cache.publishStep] at done
      split at done <;> cases done
      rename_i key seq shipped failed here
      cases failed with
      | true => exact .failed key cache.seq (here ▸ .writing key seq shipped) (Nat.le_refl _)
      | false => exact .joined key seq shipped here
  | looked =>
      simp only [Cache.publishStep] at done
      split at done <;> cases done
      rename_i key seq shipped here
      cases there : cache.disk.has (.entry key) with
      | true => exact .replacing key seq shipped here there
      | false => exact .fresh key seq shipped here there
  | unlinked name =>
      simp only [Cache.publishStep] at done
      split at done <;> cases done
      rename_i key seq shipped here
      exact .unlinked key seq shipped name here
  | emptied =>
      simp only [Cache.publishStep] at done
      split at done
      · rename_i key seq shipped here
        split at done <;> cases done
        rename_i absent
        exact .emptied key seq shipped here (by simpa using absent)
      · cases done
  | renamed =>
      simp only [Cache.publishStep] at done
      split at done
      · rename_i key seq shipped here
        split at done <;> cases done
        rename_i absent
        exact .renamed key seq shipped here (by simpa using absent)
      · cases done
  | built =>
      simp only [Cache.publishStep] at done
      split at done <;> cases done
      rename_i key shipped here
      exact .built key shipped here
  | inserted order =>
      simp only [Cache.publishStep] at done
      split at done
      · rename_i entry here free
        split at done <;> cases done
        rename_i iterates
        exact .inserted entry order _ here free iterates (Cache.enforceCap_caps _ _)
      · cases done
  | failed =>
      simp only [Cache.publishStep] at done
      split at done <;> cases done
      · rename_i key shipped here
        exact .failed key cache.seq (here ▸ .converting key shipped) (Nat.le_refl _)
      · rename_i key shipped here
        exact .failed key (cache.seq + 1) (here ▸ .creating key shipped) (Nat.le_succ _)
      · rename_i key seq shipped here
        exact .failed key cache.seq (here ▸ .replacing key seq shipped) (Nat.le_refl _)
      · rename_i key seq shipped here
        exact .failed key cache.seq (here ▸ .renaming key seq shipped) (Nat.le_refl _)

inductive Sweeps (cache : Cache Key) : SweepStep → Cache Key → Prop where
  | weighing (now entry : Nat) (todo : List Nat) (here : cache.sweep = .ageing now (entry :: todo)) :
      Sweeps cache .read { cache with
        sweep := .weighing now (now - (cache.heap entry).lastUsed) entry todo }
  | read (entry : Nat) (todo : List Nat) (read : List (Nat × Nat))
      (here : cache.sweep = .reading (entry :: todo) read) :
      Sweeps cache .read { cache with
        sweep := .reading todo (read ++ [((cache.heap entry).lastUsed, entry)]) }
  | kept (now idle entry : Nat) (todo : List Nat)
      (here : cache.sweep = .weighing now idle entry todo) :
      Sweeps cache .weighed { cache with sweep := .ageing now todo }
  | condemned (now idle entry : Nat) (todo : List Nat)
      (here : cache.sweep = .weighing now idle entry todo) (old : cache.unfetchedTtl < idle) :
      Sweeps cache .weighed { cache with sweep := .condemned now entry todo }
  | reaped (now entry : Nat) (todo : List Nat) (here : cache.sweep = .condemned now entry todo) :
      Sweeps cache .marked { cache.change entry Entry.evict with
        sweep := .removing entry (.ageing now todo) }
  | emptied (entry : Nat) (todo : List Nat) (here : cache.sweep = .clearing (entry :: todo)) :
      Sweeps cache .marked { cache.change entry Entry.evict with
        sweep := .removing entry (.clearing todo) }
  | unlinked (entry : Nat) (rest : Rest) (name : String)
      (here : cache.sweep = .removing entry rest) :
      Sweeps cache (.unlinked name) { cache with
        disk := cache.disk.unlink (.entry (cache.heap entry).key) name }
  | removed (entry : Nat) (rest : Rest) (here : cache.sweep = .removing entry rest)
      (absent : cache.disk.has (.entry (cache.heap entry).key) = false) :
      Sweeps cache .removed { cache with
        entries := (rest.resumes cache.entries entry).1
        sweep := (rest.resumes cache.entries entry).2 }
  | failed (entry : Nat) (rest : Rest) (here : cache.sweep = .removing entry rest) :
      Sweeps cache .failed { cache with
        entries := (rest.resumes cache.entries entry).1
        sweep := (rest.resumes cache.entries entry).2 }
  | aged (now : Nat) (order : List Nat) (after : Cache Key) (here : cache.sweep = .ageing now [])
      (iterates : cache.Iterates order) (caps : cache.Caps order after) :
      Sweeps cache (.aged order) after
  | sorted (read : List (Nat × Nat)) (here : cache.sweep = .reading [] read) :
      Sweeps cache .sorted { cache with
        sweep := .rotating read (Cache.victims read) cache.totalBytes }
  | released (read : List (Nat × Nat)) (victims : List Nat) (total : Nat)
      (here : cache.sweep = .rotating read victims total)
      (enough : total ≤ cache.maxBytes ∨ victims = []) : Sweeps cache .rotated cache.release
  | rotated (read : List (Nat × Nat)) (entry : Nat) (victims : List Nat) (total : Nat)
      (here : cache.sweep = .rotating read (entry :: victims) total)
      (exceeds : cache.maxBytes < total) :
      Sweeps cache .rotated { cache.change entry Entry.evict with
        entries := cache.entries.filter (· ≠ entry)
        sweep := .removing entry (.rotating read victims (total - (cache.heap entry).bytes)) }
  | cleared (here : cache.sweep = .clearing []) :
      Sweeps cache .cleared { cache with entries := [], sweep := .free }

theorem sweeps_of_step {cache after : Cache Key} {step : SweepStep}
    (done : cache.sweepStep step = some after) : Sweeps cache step after := by
  cases step with
  | read =>
      simp only [Cache.sweepStep] at done
      split at done <;> cases done
      · rename_i now entry todo here
        exact .weighing now entry todo here
      · rename_i entry todo read here
        exact .read entry todo read here
  | weighed =>
      simp only [Cache.sweepStep] at done
      split at done <;> cases done
      rename_i now idle entry todo here
      split
      · exact .kept now idle entry todo here
      · rename_i unwanted
        exact .condemned now idle entry todo here
          (Nat.lt_of_not_le fun recent => unwanted (.inr recent))
  | marked =>
      simp only [Cache.sweepStep] at done
      split at done <;> cases done
      · rename_i now entry todo here
        exact .reaped now entry todo here
      · rename_i entry todo here
        exact .emptied entry todo here
  | unlinked name =>
      simp only [Cache.sweepStep] at done
      split at done <;> cases done
      rename_i entry rest here
      exact .unlinked entry rest name here
  | removed =>
      simp only [Cache.sweepStep] at done
      split at done
      · rename_i entry rest here
        split at done <;> cases done
        rename_i absent
        exact .removed entry rest here (by simpa using absent)
      · cases done
  | failed =>
      simp only [Cache.sweepStep] at done
      split at done <;> cases done
      rename_i entry rest here
      exact .failed entry rest here
  | aged order =>
      simp only [Cache.sweepStep] at done
      split at done
      · rename_i now here
        split at done <;> cases done
        rename_i iterates
        exact .aged now order _ here iterates (Cache.enforceCap_caps _ _)
      · cases done
  | sorted =>
      simp only [Cache.sweepStep] at done
      split at done <;> cases done
      rename_i read here
      exact .sorted read here
  | rotated =>
      simp only [Cache.sweepStep] at done
      split at done
      · rename_i read victims total here
        split at done
        · rename_i fits
          cases done
          exact .released read victims total here (.inl fits)
        · rename_i exceeds
          split at done <;> cases done
          · exact .released read [] total here (.inr rfl)
          · rename_i entry victims
            exact .rotated read entry victims total here (Nat.lt_of_not_le exceeds)
      · cases done
  | cleared =>
      simp only [Cache.sweepStep] at done
      split at done <;> cases done
      rename_i here
      exact .cleared here

inductive Gets (cache : Cache Key) (caller : Nat) :
    Getting Key → Cache Key → Getting Key → Prop where
  | hit (key : Key) (entry : Nat) (free : cache.sweep = .free)
      (found : cache.lookup key = some entry) :
      Gets cache caller (.looking key)
        { cache with sweep := .touching caller entry cache.clock } .touching
  | touched (entry now : Nat) (here : cache.sweep = .touching caller entry now) :
      Gets cache caller .touching { cache.change entry (·.touch now) with sweep := .free }
        (.checking entry (cache.heap entry).stems)
  | missed (key : Key) (unknown : cache.lookup key = none) :
      Gets cache caller (.looking key) cache (.returned none)
  | found (entry : Nat) : Gets cache caller (.checking entry []) cache (.returned (some entry))
  | seen (entry : Nat) (stem : CachedStem) (todo : List CachedStem) :
      Gets cache caller (.checking entry (stem :: todo)) cache (.checking entry todo)
  | absent (entry : Nat) (stem : CachedStem) (todo : List CachedStem)
      (absent : cache.present entry stem = false) :
      Gets cache caller (.checking entry (stem :: todo)) cache (.missing entry)
  | dropped (entry : Nat) (free : cache.sweep = .free)
      (held : cache.lookup (cache.heap entry).key = some entry) :
      Gets cache caller (.missing entry) { cache.change entry Entry.evict with
        entries := cache.entries.filter (· ≠ entry) } (.returned none)
  | replaced (entry : Nat) : Gets cache caller (.missing entry) cache (.returned none)

theorem gets_of_step {cache after : Cache Key} {caller : Nat} {getting next : Getting Key}
    (done : cache.getStep caller getting = some (after, next)) :
    Gets cache caller getting after next := by
  cases getting with
  | looking key =>
      simp only [Cache.getStep] at done
      split at done
      · rename_i free
        split at done <;> cases done
        · rename_i entry found
          exact .hit key entry free found
        · rename_i unknown
          exact .missed key unknown
      · cases done
  | touching =>
      simp only [Cache.getStep] at done
      split at done
      · rename_i holder entry now here
        split at done <;> cases done
        rename_i mine
        exact .touched entry now (mine ▸ here)
      · cases done
  | checking entry todo =>
      cases todo with
      | nil =>
          cases done
          exact .found entry
      | cons stem todo =>
          cases done
          cases there : cache.present entry stem with
          | true => exact .seen entry stem todo
          | false => exact .absent entry stem todo there
  | missing entry =>
      simp only [Cache.getStep] at done
      split at done
      · rename_i free
        split at done <;> cases done
        · rename_i held
          exact .dropped entry free held
        · exact .replaced entry
      · cases done
  | returned found => cases done

inductive Move (cache : Cache Key) : Event Key → Cache Key → Prop where
  | publish (key : Key) (shipped : List Shipped)
      (idle : cache.publishing = .idle ∨ ∃ key, cache.publishing = .failed key) :
      Move cache (.publish key shipped) { cache with publishing := .converting key shipped }
  | publisher {step : PublishStep} {after : Cache Key} (publishes : Publishes cache step after) :
      Move cache (.publisher step) after
  | ages (order : List Nat) (free : cache.sweep = .free) (iterates : cache.Iterates order) :
      Move cache (.reap order) { cache with sweep := .ageing cache.clock order }
  | caps (order : List Nat) (after : Cache Key) (free : cache.sweep = .free)
      (iterates : cache.Iterates order) (caps : cache.Caps order after) :
      Move cache (.reap order) after
  | clear (order : List Nat) (free : cache.sweep = .free) (iterates : cache.Iterates order) :
      Move cache (.clear order) { cache with sweep := .clearing order }
  | sweeper {step : SweepStep} {after : Cache Key} (sweeps : Sweeps cache step after) :
      Move cache (.sweeper step) after
  | get (key : Key) :
      Move cache (.get key) { cache with getting := cache.getting ++ [.looking key] }
  | getter (caller : Nat) {getting next : Getting Key} {after : Cache Key}
      (here : cache.getting[caller]? = some getting) (gets : Gets cache caller getting after next) :
      Move cache (.getter caller) { after with getting := after.getting.set caller next }
  | fetch (entry : Nat) (name : String) (made : entry < cache.made) :
      Move cache (.fetch entry name) (cache.change entry (·.markFetched name cache.clock))
  | tick : Move cache .tick { cache with clock := cache.clock + 1 }

theorem move_of_step {cache after : Cache Key} {event : Event Key}
    (done : cache.step event = some after) : Move cache event after := by
  cases event with
  | publish key shipped =>
      simp only [Cache.step] at done
      split at done <;> cases done
      · rename_i idle
        exact .publish key shipped (.inl idle)
      · rename_i failed
        exact .publish key shipped (.inr ⟨_, failed⟩)
  | publisher step => exact .publisher (publishes_of_step done)
  | reap order =>
      simp only [Cache.step] at done
      split at done
      · rename_i free
        split at done
        · rename_i iterates
          split at done <;> cases done
          · exact .ages order free iterates
          · exact .caps order _ free iterates (Cache.enforceCap_caps _ _)
        · cases done
      · cases done
  | clear order =>
      simp only [Cache.step] at done
      split at done
      · rename_i free
        split at done <;> cases done
        rename_i iterates
        exact .clear order free iterates
      · cases done
  | sweeper step => exact .sweeper (sweeps_of_step done)
  | get key =>
      cases done
      exact .get key
  | getter caller =>
      simp only [Cache.step, Option.bind_eq_bind, Option.bind_eq_some_iff] at done
      obtain ⟨getting, here, ⟨moved, next⟩, gets, same⟩ := done
      cases same
      exact .getter caller here (gets_of_step gets)
  | fetch entry name =>
      simp only [Cache.step] at done
      split at done <;> cases done
      rename_i made
      exact .fetch entry name made
  | tick =>
      cases done
      exact .tick

theorem Move.settings {cache after : Cache Key} {event : Event Key}
    (move : Move cache event after) :
    after.maxBytes = cache.maxBytes ∧ after.unfetchedTtl = cache.unfetchedTtl := by
  have caps : ∀ {from' : Cache Key} {order : List Nat}, from'.Caps order after →
      from'.maxBytes = cache.maxBytes → from'.unfetchedTtl = cache.unfetchedTtl →
        after.maxBytes = cache.maxBytes ∧ after.unfetchedTtl = cache.unfetchedTtl := by
    intro from' order caps maxBytes ttl
    cases caps <;> exact ⟨maxBytes, ttl⟩
  cases move with
  | publisher publishes =>
      cases publishes with
      | inserted entry order after here free iterates capped => exact caps capped rfl rfl
      | _ => exact ⟨rfl, rfl⟩
  | caps order after free iterates capped => exact caps capped rfl rfl
  | sweeper sweeps =>
      cases sweeps with
      | aged now order after here iterates capped => exact caps capped rfl rfl
      | _ => exact ⟨rfl, rfl⟩
  | getter caller here gets => cases gets <;> exact ⟨rfl, rfl⟩
  | _ => exact ⟨rfl, rfl⟩

theorem settings_of_reaches [Inhabited Key] {maxBytes unfetchedTtl : Nat}
    {ok : Cache Key → Event Key → Prop} {cache : Cache Key}
    (run : (Cache.system maxBytes unfetchedTtl).Reaches ok (.new maxBytes unfetchedTtl) cache) :
    cache.maxBytes = maxBytes ∧ cache.unfetchedTtl = unfetchedTtl :=
  run.invariant (P := fun cache => cache.maxBytes = maxBytes ∧ cache.unfetchedTtl = unfetchedTtl)
    ⟨rfl, rfl⟩ fun _ _ _ _ known _ done =>
      ⟨(move_of_step done).settings.1.trans known.1, (move_of_step done).settings.2.trans known.2⟩

end Stemd.Store
