import Stemd.Store.Sound

/-! The size the index reports, and the entries callers look into.

Only a publish brings the index over the cap, and it lets go of the lock once rule 2 has
brought it back, or left one entry alone. -/

set_option autoImplicit false

namespace Stemd.Store

open Stemd.Semantics

variable {Key : Type}

/-- Entries stay as they were made, as far as their files are concerned, and evicted once they
are. -/
structure Fixes (cache after : Cache Key) : Prop where
  made : cache.made ≤ after.made
  key : ∀ entry < cache.made, (after.heap entry).key = (cache.heap entry).key
  stems : ∀ entry < cache.made, (after.heap entry).stems = (cache.heap entry).stems
  bytes : ∀ entry < cache.made, (after.heap entry).bytes = (cache.heap entry).bytes
  evicted : ∀ entry < cache.made, (cache.heap entry).evicted = true →
    (after.heap entry).evicted = true

theorem Fixes.of_eq {cache after : Cache Key} (made : after.made = cache.made)
    (heap : after.heap = cache.heap) : Fixes cache after := by
  refine ⟨Nat.le_of_eq made.symm, ?_, ?_, ?_, ?_⟩ <;> intro entry _ <;> rw [heap]
  exact id

theorem Fixes.of_change {cache after : Cache Key} {entry : Nat} {f : Entry Key → Entry Key}
    (made : after.made = cache.made) (heap : after.heap = (cache.change entry f).heap)
    (key : (f (cache.heap entry)).key = (cache.heap entry).key)
    (stems : (f (cache.heap entry)).stems = (cache.heap entry).stems)
    (bytes : (f (cache.heap entry)).bytes = (cache.heap entry).bytes)
    (evicted : (cache.heap entry).evicted = true → (f (cache.heap entry)).evicted = true) :
    Fixes cache after := by
  refine ⟨Nat.le_of_eq made.symm, ?_, ?_, ?_, ?_⟩ <;> intro other _ <;> rw [heap]
  · exact cache.change_read Entry.key key other
  · exact cache.change_read Entry.stems stems other
  · exact cache.change_read Entry.bytes bytes other
  · rw [Cache.change_heap]
    split
    · rename_i same
      rw [same]
      exact evicted
    · exact id

theorem Fixes.of_made [DecidableEq Key] {cache after : Cache Key} {entry : Entry Key}
    (made : after.made = cache.made + 1)
    (heap : after.heap = Function.update cache.heap cache.made entry) : Fixes cache after := by
  refine ⟨Nat.le_of_lt (Nat.lt_of_lt_of_eq (Nat.lt_succ_self _) made.symm), ?_, ?_, ?_, ?_⟩ <;>
    intro other known <;> rw [heap, Function.update_of_ne (Nat.ne_of_lt known)]
  exact id

theorem Fixes.caps {cache indexed after : Cache Key} {order : List Nat} (fixes : Fixes cache indexed)
    (caps : indexed.Caps order after) : Fixes cache after := by
  cases caps with
  | fits fits => exact ⟨fixes.made, fixes.key, fixes.stems, fixes.bytes, fixes.evicted⟩
  | exceeds exceeds => exact ⟨fixes.made, fixes.key, fixes.stems, fixes.bytes, fixes.evicted⟩

variable [DecidableEq Key]

theorem Move.fixes {cache after : Cache Key} {event : Event Key} (move : Move cache event after) :
    Fixes cache after := by
  cases move with
  | publisher publishes =>
      cases publishes with
      | built key shipped here => exact .of_made rfl rfl
      | inserted entry order after here free iterates caps =>
          have indexed : Fixes cache (cache.indexed entry) := .of_eq rfl rfl
          exact indexed.caps caps
      | _ => exact .of_eq rfl rfl
  | caps order after free iterates caps => exact (Fixes.of_eq rfl rfl).caps caps
  | sweeper sweeps =>
      cases sweeps with
      | aged now order after here iterates caps => exact (Fixes.of_eq rfl rfl).caps caps
      | reaped _ _ _ _ | emptied _ _ _ | rotated _ _ _ _ _ _ =>
          exact .of_change rfl rfl rfl rfl rfl fun _ => rfl
      | _ => exact .of_eq rfl rfl
  | getter caller here gets =>
      cases gets with
      | touched _ _ _ => exact .of_change rfl rfl rfl rfl rfl id
      | dropped _ _ _ => exact .of_change rfl rfl rfl rfl rfl fun _ => rfl
      | _ => exact .of_eq rfl rfl
  | fetch entry name known => exact .of_change rfl rfl rfl rfl rfl id
  | _ => exact .of_eq rfl rfl

theorem Move.inserting {cache after : Cache Key} {event : Event Key} {entry : Nat}
    (move : Move cache event after) (is : after.publishing = .inserting entry) :
    cache.publishing = .inserting entry ∨ entry = cache.made := by
  cases move with
  | publish key shipped idle => cases is
  | publisher publishes =>
      cases publishes with
      | built key shipped here =>
          cases is
          exact .inr rfl
      | inserted other order after here free iterates caps =>
          cases caps with
          | fits fits => cases is
          | exceeds exceeds => cases is
      | _ => cases is
  | caps order after free iterates caps =>
      cases caps with
      | fits fits => exact .inl (release_pending is)
      | exceeds exceeds => exact .inl is
  | sweeper sweeps =>
      cases sweeps with
      | aged now order after here iterates caps =>
          cases caps with
          | fits fits => exact .inl (release_pending is)
          | exceeds exceeds => exact .inl is
      | released read victims total here enough => exact .inl (release_pending is)
      | _ => exact .inl is
  | getter caller here gets => cases gets <;> exact .inl is
  | _ => exact .inl is

def Getting.entry : Getting Key → Option Nat
  | .checking entry _ | .missing entry => some entry
  | _ => none

structure Collecting (cache : Cache Key) : Prop where
  known : ∀ getting ∈ cache.getting, ∀ entry ∈ getting.entry,
    entry < cache.made ∧ cache.publishing ≠ .inserting entry
  stems : ∀ entry todo, .checking entry todo ∈ cache.getting →
    todo ⊆ (cache.heap entry).stems

theorem Collecting.gets {cache after : Cache Key} {caller : Nat} {getting next : Getting Key}
    (collecting : Collecting cache) (sound : Sound cache) (here : getting ∈ cache.getting)
    (gets : Gets cache caller getting after next) :
    (∀ entry ∈ next.entry, entry < cache.made ∧ cache.publishing ≠ .inserting entry) ∧
      ∀ entry todo, next = .checking entry todo → todo ⊆ (cache.heap entry).stems := by
  cases gets with
  | touched entry now held =>
      have inside : entry ∈ cache.entries := by
        have swept := sound.swept
        rw [held] at swept
        exact swept
      refine ⟨fun other is => ?_, fun other todo is => ?_⟩
      · cases is
        exact ⟨sound.made entry inside, fun pending => (sound.pending entry pending).2.1 inside⟩
      · cases is
        exact List.Subset.refl _
  | seen entry stem todo =>
      refine ⟨fun other is => ?_, fun other todo' is => ?_⟩
      · cases is
        exact collecting.known _ here entry rfl
      · cases is
        exact (List.cons_subset.mp (collecting.stems entry (stem :: todo) here)).2
  | absent entry stem todo absent =>
      refine ⟨fun other is => ?_, fun other todo' is => by cases is⟩
      cases is
      exact collecting.known _ here entry rfl
  | _ => exact ⟨fun _ is => (by cases is), fun _ _ is => by cases is⟩

theorem Collecting.move {cache after : Cache Key} {event : Event Key}
    (collecting : Collecting cache) (sound : Sound cache) (move : Move cache event after) :
    Collecting after := by
  have fixes := move.fixes
  -- Whoever looks at an entry of before looks at one that is as it was.
  have still : ∀ entry, entry < cache.made ∧ cache.publishing ≠ .inserting entry →
      entry < after.made ∧ after.publishing ≠ .inserting entry := fun entry ⟨known, outside⟩ =>
    ⟨Nat.lt_of_lt_of_le known fixes.made, fun is => (move.inserting is).elim outside
      fun new => Nat.lt_irrefl _ (new ▸ known)⟩
  have carry : (∀ getting ∈ after.getting, getting ∈ cache.getting ∨ getting.entry = none) →
      Collecting after := by
    intro same
    refine ⟨fun getting member entry is => ?_, fun entry todo member => ?_⟩
    · rcases same getting member with old | idle
      · exact still entry (collecting.known getting old entry is)
      · rw [idle] at is
        cases is
    · rcases same _ member with old | idle
      · rw [fixes.stems entry (collecting.known _ old entry rfl).1]
        exact collecting.stems entry todo old
      · cases idle
  cases move with
  | get key =>
      refine carry fun getting member => ?_
      rcases List.mem_append.mp member with old | new
      · exact .inl old
      · rw [List.mem_singleton.mp new]
        exact .inr rfl
  | @getter caller getting next moved here gets =>
      have mine := collecting.gets sound (List.mem_of_getElem? here) gets
      have same : moved.getting = cache.getting := by cases gets <;> rfl
      refine ⟨fun other member entry is => ?_, fun entry todo member => ?_⟩
      · rcases List.mem_or_eq_of_mem_set member with old | rfl
        · exact still entry (collecting.known other (same ▸ old) entry is)
        · exact still entry (mine.1 entry is)
      · rcases List.mem_or_eq_of_mem_set member with old | new
        · rw [fixes.stems entry (collecting.known _ (same ▸ old) entry rfl).1]
          exact collecting.stems entry todo (same ▸ old)
        · rw [fixes.stems entry (mine.1 entry (new ▸ rfl)).1]
          exact mine.2 entry todo new.symm
  | publisher publishes =>
      refine carry fun getting member => .inl ?_
      cases publishes with
      | inserted entry order after here free iterates caps => cases caps <;> exact member
      | _ => exact member
  | caps order after free iterates caps =>
      exact carry fun getting member => .inl (by cases caps <;> exact member)
  | sweeper sweeps =>
      refine carry fun getting member => .inl ?_
      cases sweeps with
      | aged now order after here iterates caps => cases caps <;> exact member
      | _ => exact member
  | _ => exact carry fun getting member => .inl member

omit [DecidableEq Key] in
theorem totalBytes_le {cache after : Cache Key} (sound : Sound cache) (fixes : Fixes cache after)
    (sub : after.entries.Sublist cache.entries) : after.totalBytes ≤ cache.totalBytes := by
  have same : after.totalBytes = cache.bytes after.entries :=
    bytes_congr fun entry member => fixes.bytes entry (sound.made entry (sub.subset member))
  rw [same]
  exact (sub.map _).sum_le_sum fun _ _ => Nat.zero_le _

structure Sized (cache : Cache Key) : Prop where
  fits : cache.totalBytes ≤ cache.maxBytes ∨ cache.entries.length ≤ 1 ∨
    ∃ own, cache.publishing = .capping own
  victim : ∀ entry read victims total,
    cache.sweep = .removing entry (.rotating read victims total) →
      ∃ own, cache.publishing = .capping own

omit [DecidableEq Key] in
theorem Sized.carry {cache after : Cache Key} (sized : Sized cache) (sound : Sound cache)
    (fixes : Fixes cache after) (maxBytes : after.maxBytes = cache.maxBytes)
    (sub : after.entries.Sublist cache.entries)
    (capping : ∀ own, cache.publishing = .capping own → after.publishing = .capping own)
    (victim : ∀ entry read victims total,
      after.sweep = .removing entry (.rotating read victims total) →
        cache.sweep = .removing entry (.rotating read victims total)) : Sized after := by
  refine ⟨?_, fun entry read victims total is => ?_⟩
  · rcases sized.fits with fits | few | ⟨own, here⟩
    · exact .inl (maxBytes ▸ (totalBytes_le sound fixes sub).trans fits)
    · exact .inr (.inl (sub.length_le.trans few))
    · exact .inr (.inr ⟨own, capping own here⟩)
  · obtain ⟨own, here⟩ := sized.victim entry read victims total (victim entry read victims total is)
    exact ⟨own, capping own here⟩

omit [DecidableEq Key] in
theorem Sized.release {cache : Cache Key}
    (fits : cache.totalBytes ≤ cache.maxBytes ∨ cache.entries.length ≤ 1) :
    Sized cache.release :=
  ⟨fits.imp id .inl, fun _ _ _ _ is => by cases is⟩

theorem Sized.publishes {cache after : Cache Key} {step : PublishStep} (sized : Sized cache)
    (sound : Sound cache) (publishes : Publishes cache step after) : Sized after := by
  have fixes := (Move.publisher publishes).fixes
  cases publishes with
  | inserted entry order after here free iterates caps =>
      cases caps with
      | fits fits => exact .release (.inl fits)
      | exceeds exceeds => exact ⟨.inr (.inr ⟨entry, rfl⟩), fun _ _ _ _ is => by cases is⟩
  | failed key seq fails later =>
      refine sized.carry sound fixes rfl (.refl _) (fun own is => ?_) (fun _ _ _ _ is => is)
      rw [is] at fails
      cases fails
  | converted _ _ here | created _ _ here | joined _ _ _ here | replacing _ _ _ here _
  | fresh _ _ _ here _ | emptied _ _ _ here _ | wrote _ _ _ _ _ _ _ here _
  | spoiled _ _ _ _ _ _ _ _ here _ | unlinked _ _ _ _ here | renamed _ _ _ here _
  | built _ _ here =>
      refine sized.carry sound fixes rfl (.refl _) (fun own is => ?_) (fun _ _ _ _ is => is)
      cases here.symm.trans is

omit [DecidableEq Key] in
theorem Sized.caps {cache after : Cache Key} {order : List Nat} (sized : Sized cache)
    (sound : Sound cache) (caps : cache.Caps order after) : Sized after := by
  cases caps with
  | fits fits => exact .release (.inl fits)
  | exceeds exceeds =>
      exact sized.carry sound (.of_eq rfl rfl) rfl (.refl _) (fun _ is => is)
        (fun _ _ _ _ is => by cases is)

theorem Sized.sweeps {cache after : Cache Key} {step : SweepStep} (sized : Sized cache)
    (sound : Sound cache) (sweeps : Sweeps cache step after) : Sized after := by
  have fixes := (Move.sweeper sweeps).fixes
  have swept := sound.swept
  cases sweeps with
  | aged now order after here iterates caps => exact sized.caps sound caps
  | released read victims total here enough =>
      rw [here] at swept
      obtain ⟨dropped, last, -, perm, rfl, -⟩ := swept
      refine .release (enough.imp id fun none => ?_)
      simpa [none] using perm.length_eq.le
  | rotated read entry victims total here exceeds =>
      rw [here] at swept
      obtain ⟨dropped, last, -, perm, rfl, -⟩ := swept
      -- Two entries are left that do not fit, so a publish is at it.
      have capping : ∃ own, cache.publishing = .capping own := by
        rcases sized.fits with fits | few | capping
        · exact (Nat.not_le_of_lt exceeds fits).elim
        · have two := perm.length_eq
          simp only [List.length_append, List.length_cons, List.length_nil] at two
          omega
        · exact capping
      exact ⟨.inr (.inr capping), fun _ _ _ _ _ => capping⟩
  | removed entry rest here _ | failed entry rest here =>
      cases rest with
      | ageing now todo =>
          exact sized.carry sound fixes rfl List.filter_sublist (fun _ is => is)
            (fun _ _ _ _ is => by cases is)
      | rotating _ _ _ | clearing _ =>
          exact sized.carry sound fixes rfl (.refl _) (fun _ is => is)
            (fun _ _ _ _ is => by cases is)
  | cleared here =>
      exact sized.carry sound fixes rfl (List.nil_sublist _) (fun _ is => is)
        (fun _ _ _ _ is => by cases is)
  | unlinked entry rest name here =>
      exact sized.carry sound fixes rfl (.refl _) (fun _ is => is) (fun _ _ _ _ is => is)
  | _ =>
      exact sized.carry sound fixes rfl (.refl _) (fun _ is => is)
        (fun _ _ _ _ is => by cases is)

theorem Sized.move {cache after : Cache Key} {event : Event Key} (sized : Sized cache)
    (sound : Sound cache) (move : Move cache event after) : Sized after := by
  have fixes := move.fixes
  cases move with
  | publish key shipped idle =>
      refine sized.carry sound fixes rfl (.refl _) (fun own is => ?_) (fun _ _ _ _ is => is)
      rcases idle with idle | ⟨failed, idle⟩ <;> cases idle.symm.trans is
  | publisher publishes => exact sized.publishes sound publishes
  | caps order after free iterates caps => exact sized.caps sound caps
  | sweeper sweeps => exact sized.sweeps sound sweeps
  | ages _ _ _ | clear _ _ _ =>
      exact sized.carry sound fixes rfl (.refl _) (fun _ is => is)
        (fun _ _ _ _ is => by cases is)
  | getter caller here gets =>
      cases gets with
      | dropped entry free held =>
          exact sized.carry sound fixes rfl List.filter_sublist (fun _ is => is)
            (fun _ _ _ _ is => is)
      | hit _ _ _ _ | touched _ _ _ =>
          exact sized.carry sound fixes rfl (.refl _) (fun _ is => is)
            (fun _ _ _ _ is => by cases is)
      | _ => exact sized.carry sound fixes rfl (.refl _) (fun _ is => is) (fun _ _ _ _ is => is)
  | _ => exact sized.carry sound fixes rfl (.refl _) (fun _ is => is) (fun _ _ _ _ is => is)

section runs

variable [Inhabited Key] {maxBytes unfetchedTtl : Nat} {ok : Cache Key → Event Key → Prop}

theorem collecting_of_reaches {cache : Cache Key}
    (run : (Cache.system maxBytes unfetchedTtl).Reaches ok (.new maxBytes unfetchedTtl) cache) :
    Collecting cache :=
  run.invariant ⟨fun _ member => (by cases member), fun _ _ member => by cases member⟩
    fun _ _ _ before collecting _ done =>
      collecting.move (sound_of_reaches before) (move_of_step done)

theorem sized_of_reaches {cache : Cache Key}
    (run : (Cache.system maxBytes unfetchedTtl).Reaches ok (.new maxBytes unfetchedTtl) cache) :
    Sized cache :=
  run.invariant ⟨.inl (Nat.zero_le _), fun _ _ _ _ is => by cases is⟩
    fun _ _ _ before sized _ done => sized.move (sound_of_reaches before) (move_of_step done)

end runs

end Stemd.Store
