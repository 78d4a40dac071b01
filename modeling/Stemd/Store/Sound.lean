import Mathlib.Algebra.BigOperators.Group.List.Basic
import Stemd.Store.Moves

/-! What the index holds, and what the holder of its lock may rely on.

The index has one entry a key. Whoever goes through it finds what it noted down still
there, and an entry that reads as evicted is on its way out. -/

set_option autoImplicit false

namespace Stemd.Store

open Stemd.Semantics

variable {Key : Type}

def lruOrder (read : List (Nat × Nat)) : List Nat :=
  (read.insertionSort (·.1 ≤ ·.1)).map (·.2)

theorem victims_eq (read : List (Nat × Nat)) : Cache.victims read = (lruOrder read).dropLast := by
  simp [Cache.victims, lruOrder, List.map_dropLast]

theorem lruOrder_perm (read : List (Nat × Nat)) : (lruOrder read).Perm (read.map (·.2)) :=
  (List.perm_insertionSort _ read).map _

def Cache.Rotating (cache : Cache Key) (read : List (Nat × Nat)) (victims : List Nat)
    (total : Nat) : Prop :=
  ∃ dropped last, lruOrder read = dropped ++ (victims ++ [last]) ∧
    cache.entries.Perm (victims ++ [last]) ∧ total = cache.totalBytes ∧
      (∀ entry ∈ dropped, entry < cache.made ∧ (cache.heap entry).evicted = true) ∧
        ∀ entry ∈ dropped.getLast?, cache.maxBytes < (cache.heap entry).bytes + total

def Cache.Swept (cache : Cache Key) : Sweep → Prop
  | .free => True
  | .ageing _ todo | .clearing todo => todo.Nodup ∧ todo ⊆ cache.entries
  | .weighing _ _ entry todo | .condemned _ entry todo => (entry :: todo).Nodup ∧
      entry :: todo ⊆ cache.entries
  | .touching _ entry _ => entry ∈ cache.entries
  | .reading todo read => (read.map (·.2) ++ todo).Perm cache.entries ∧
      cache.maxBytes < cache.totalBytes
  | .rotating read victims total => cache.Rotating read victims total
  | .removing entry rest => match rest with
      | .ageing _ todo | .clearing todo => (entry :: todo).Nodup ∧ entry :: todo ⊆ cache.entries
      | .rotating read victims total => entry ∉ cache.entries ∧ entry < cache.made ∧
          cache.Rotating read victims total

def Sweep.Dooms : Sweep → Nat → Prop
  | .removing entry (.ageing _ _), other => other = entry
  | .removing _ (.clearing todo), other | .clearing todo, other => other ∉ todo
  | _, _ => False

structure Sound (cache : Cache Key) : Prop where
  made : ∀ entry ∈ cache.entries, entry < cache.made
  nodup : cache.entries.Nodup
  keys : ∀ entry ∈ cache.entries, ∀ other ∈ cache.entries,
    (cache.heap entry).key = (cache.heap other).key → entry = other
  pending : ∀ entry, cache.publishing = .inserting entry → entry < cache.made ∧
    entry ∉ cache.entries ∧ (cache.heap entry).evicted = false
  swept : cache.Swept cache.sweep
  live : ∀ entry ∈ cache.entries, (cache.heap entry).evicted = true → cache.sweep.Dooms entry

/-- The entries there are keep what was fixed when they were made, and their standing. -/
structure Frame (cache after : Cache Key) : Prop where
  entries : after.entries = cache.entries
  made : cache.made ≤ after.made
  maxBytes : after.maxBytes = cache.maxBytes
  sweep : after.sweep = cache.sweep
  key : ∀ entry < cache.made, (after.heap entry).key = (cache.heap entry).key
  bytes : ∀ entry < cache.made, (after.heap entry).bytes = (cache.heap entry).bytes
  evicted : ∀ entry < cache.made, (after.heap entry).evicted = (cache.heap entry).evicted

theorem bytes_congr {cache after : Cache Key} {entries : List Nat}
    (same : ∀ entry ∈ entries, (after.heap entry).bytes = (cache.heap entry).bytes) :
    after.bytes entries = cache.bytes entries :=
  congrArg List.sum (List.map_congr_left same)

theorem bytes_perm (cache : Cache Key) {entries entries' : List Nat}
    (perm : entries.Perm entries') : cache.bytes entries = cache.bytes entries' :=
  (perm.map _).sum_eq

theorem Cache.Rotating.frame {cache after : Cache Key} {read : List (Nat × Nat)}
    {victims : List Nat} {total : Nat} (rotating : cache.Rotating read victims total)
    (made : ∀ entry ∈ cache.entries, entry < cache.made) (frame : Frame cache after) :
    after.Rotating read victims total := by
  obtain ⟨dropped, last, order, perm, rfl, gone, exceeds⟩ := rotating
  refine ⟨dropped, last, order, frame.entries ▸ perm, ?_, fun entry member => ?_,
    fun entry is => ?_⟩
  · rw [Cache.totalBytes, Cache.totalBytes, frame.entries]
    exact (bytes_congr fun entry member => frame.bytes entry (made entry member)).symm
  · obtain ⟨known, evicted⟩ := gone entry member
    exact ⟨Nat.lt_of_lt_of_le known frame.made, frame.evicted entry known ▸ evicted⟩
  · have known := (gone entry (List.mem_of_getLast? is)).1
    rw [frame.maxBytes, frame.bytes entry known]
    exact exceeds entry is

theorem Sound.frame {cache after : Cache Key} (sound : Sound cache) (frame : Frame cache after)
    (pending : ∀ entry, after.publishing = .inserting entry → entry < after.made ∧
      entry ∉ after.entries ∧ (after.heap entry).evicted = false) : Sound after := by
  have key := fun entry member => frame.key entry (sound.made entry member)
  have total : after.totalBytes = cache.totalBytes := by
    rw [Cache.totalBytes, Cache.totalBytes, frame.entries]
    exact bytes_congr fun entry member => frame.bytes entry (sound.made entry member)
  refine ⟨?_, frame.entries ▸ sound.nodup, ?_, pending, ?_, ?_⟩
  · rw [frame.entries]
    exact fun entry member => Nat.lt_of_lt_of_le (sound.made entry member) frame.made
  · rw [frame.entries]
    intro entry member other member' same
    rw [key entry member, key other member'] at same
    exact sound.keys entry member other member' same
  · have swept := sound.swept
    rw [frame.sweep]
    generalize cache.sweep = sweep at swept ⊢
    cases sweep with
    | free => trivial
    | touching caller entry now =>
        change entry ∈ after.entries
        rw [frame.entries]
        exact swept
    | reading todo read =>
        refine ⟨frame.entries ▸ swept.1, ?_⟩
        rw [frame.maxBytes, total]
        exact swept.2
    | rotating read victims total => exact Cache.Rotating.frame swept sound.made frame
    | removing entry rest =>
        cases rest with
        | rotating read victims total =>
            exact ⟨frame.entries ▸ swept.1, Nat.lt_of_lt_of_le swept.2.1 frame.made,
              swept.2.2.frame sound.made frame⟩
        | ageing now todo => exact ⟨swept.1, frame.entries ▸ swept.2⟩
        | clearing todo => exact ⟨swept.1, frame.entries ▸ swept.2⟩
    | ageing now todo => exact ⟨swept.1, frame.entries ▸ swept.2⟩
    | clearing todo => exact ⟨swept.1, frame.entries ▸ swept.2⟩
    | weighing now idle entry todo => exact ⟨swept.1, frame.entries ▸ swept.2⟩
    | condemned now entry todo => exact ⟨swept.1, frame.entries ▸ swept.2⟩
  · intro entry member evicted
    rw [frame.entries] at member
    rw [frame.sweep]
    exact sound.live entry member (frame.evicted entry (sound.made entry member) ▸ evicted)

theorem Frame.of_eq {cache after : Cache Key} (entries : after.entries = cache.entries)
    (made : after.made = cache.made) (maxBytes : after.maxBytes = cache.maxBytes)
    (sweep : after.sweep = cache.sweep) (heap : after.heap = cache.heap) : Frame cache after :=
  ⟨entries, made ▸ Nat.le_refl _, maxBytes, sweep, fun _ _ => heap ▸ rfl, fun _ _ => heap ▸ rfl,
    fun _ _ => heap ▸ rfl⟩

theorem Frame.change (cache : Cache Key) {entry : Nat} {f : Entry Key → Entry Key}
    (key : (f (cache.heap entry)).key = (cache.heap entry).key)
    (bytes : (f (cache.heap entry)).bytes = (cache.heap entry).bytes)
    (evicted : (f (cache.heap entry)).evicted = (cache.heap entry).evicted) :
    Frame cache (cache.change entry f) :=
  ⟨rfl, Nat.le_refl _, rfl, rfl, fun other _ => cache.change_read Entry.key key other,
    fun other _ => cache.change_read Entry.bytes bytes other,
    fun other _ => cache.change_read Entry.evicted evicted other⟩

theorem evict_key (cache : Cache Key) (entry other : Nat) :
    ((cache.change entry Entry.evict).heap other).key = (cache.heap other).key :=
  cache.change_read Entry.key rfl other

theorem evict_bytes (cache : Cache Key) (entry other : Nat) :
    ((cache.change entry Entry.evict).heap other).bytes = (cache.heap other).bytes :=
  cache.change_read Entry.bytes rfl other

theorem evict_evicted (cache : Cache Key) (entry other : Nat) :
    ((cache.change entry Entry.evict).heap other).evicted = true ↔
      other = entry ∨ (cache.heap other).evicted = true := by
  rw [Cache.change_heap]
  split
  · rename_i same
    simp [same, Entry.evict]
  · rename_i apart
    simp [apart]

theorem Sound.settle {cache after : Cache Key} (sound : Sound cache)
    (alive : ∀ entry ∈ cache.entries, (cache.heap entry).evicted = false)
    (entries : after.entries = cache.entries) (made : after.made = cache.made)
    (heap : after.heap = cache.heap)
    (pending : ∀ entry, after.publishing = .inserting entry → cache.publishing = .inserting entry)
    (swept : after.Swept after.sweep) : Sound after := by
  refine ⟨?_, entries ▸ sound.nodup, ?_, fun entry is => ?_, swept, fun entry member evicted => ?_⟩
  · rw [entries, made]
    exact sound.made
  · rw [entries, heap]
    exact sound.keys
  · rw [entries, made, heap]
    exact sound.pending entry (pending entry is)
  · rw [entries] at member
    rw [heap, alive entry member] at evicted
    cases evicted

theorem release_pending {cache : Cache Key} {entry : Nat}
    (is : cache.release.publishing = .inserting entry) :
    cache.publishing = .inserting entry := by
  rcases cache.release_publishing with same | ⟨-, idle⟩
  · exact same ▸ is
  · cases idle.symm.trans is

theorem Sound.release {cache : Cache Key} (sound : Sound cache)
    (alive : ∀ entry ∈ cache.entries, (cache.heap entry).evicted = false) :
    Sound cache.release :=
  sound.settle alive rfl rfl rfl (fun _ => release_pending) trivial

theorem Sound.caps {cache after : Cache Key} {order : List Nat} (sound : Sound cache)
    (alive : ∀ entry ∈ cache.entries, (cache.heap entry).evicted = false)
    (iterates : cache.Iterates order) (caps : cache.Caps order after) : Sound after := by
  cases caps with
  | fits fits => exact sound.release alive
  | exceeds exceeds => exact sound.settle alive rfl rfl rfl (fun _ is => is) ⟨iterates, exceeds⟩

theorem Sound.alive {cache : Cache Key} (sound : Sound cache)
    (none : ∀ entry ∈ cache.entries, ¬ cache.sweep.Dooms entry) :
    ∀ entry ∈ cache.entries, (cache.heap entry).evicted = false := fun entry member =>
  Bool.eq_false_iff.mpr fun evicted => none entry member (sound.live entry member evicted)

theorem Sound.insert [DecidableEq Key] {cache : Cache Key} {entry : Nat} (sound : Sound cache)
    (free : cache.sweep = .free) (here : cache.publishing = .inserting entry) :
    Sound (cache.indexed entry) := by
  obtain ⟨known, outside, alive⟩ := sound.pending entry here
  have others : ∀ old ∈ cache.entries.filter fun old =>
      (cache.heap old).key ≠ (cache.heap entry).key, old ∈ cache.entries ∧
        (cache.heap old).key ≠ (cache.heap entry).key := fun old member => by
    obtain ⟨inside, apart⟩ := List.mem_filter.mp member
    exact ⟨inside, of_decide_eq_true apart⟩
  refine ⟨fun old member => ?_, ?_, fun old member other member' same => ?_,
    fun _ is => (by cases is), ?_, fun old member evicted => ?_⟩
  · rcases List.mem_append.mp member with inside | new
    · exact sound.made old (others old inside).1
    · exact List.mem_singleton.mp new ▸ known
  · refine List.nodup_append.mpr ⟨sound.nodup.filter _, List.nodup_singleton _, ?_⟩
    rintro old inside new is rfl
    exact outside (List.mem_singleton.mp is ▸ (others old inside).1)
  · rcases List.mem_append.mp member with inside | new <;>
      rcases List.mem_append.mp member' with inside' | new'
    · exact sound.keys old (others old inside).1 other (others other inside').1 same
    · rw [List.mem_singleton.mp new'] at same
      exact absurd same (others old inside).2
    · rw [List.mem_singleton.mp new] at same
      exact absurd same.symm (others other inside').2
    · rw [List.mem_singleton.mp new, List.mem_singleton.mp new']
  · change (cache.indexed entry).Swept cache.sweep
    rw [free]
    trivial
  · change (cache.heap old).evicted = true at evicted
    rcases List.mem_append.mp member with inside | new
    · have dooms := sound.live old (others old inside).1 evicted
      rw [free] at dooms
      exact dooms.elim
    · cases alive.symm.trans (List.mem_singleton.mp new ▸ evicted)

theorem Sound.publishes [DecidableEq Key] {cache after : Cache Key} {step : PublishStep}
    (sound : Sound cache) (publishes : Publishes cache step after) : Sound after := by
  cases publishes with
  | built key shipped here =>
      refine sound.frame ⟨rfl, Nat.le_succ _, rfl, rfl, ?_, ?_, ?_⟩ fun entry is => ?_
      · exact fun entry known => by simp only [Function.update_of_ne (Nat.ne_of_lt known)]
      · exact fun entry known => by simp only [Function.update_of_ne (Nat.ne_of_lt known)]
      · exact fun entry known => by simp only [Function.update_of_ne (Nat.ne_of_lt known)]
      cases is
      refine ⟨Nat.lt_succ_self _, fun member => Nat.lt_irrefl _ (sound.made _ member), ?_⟩
      simp [entryOf]
  | inserted entry order after here free iterates caps =>
      have indexed := sound.insert free here
      refine indexed.caps (indexed.alive fun old _ => ?_) iterates caps
      change ¬ cache.sweep.Dooms old
      rw [free]
      exact id
  | _ => exact sound.frame (.of_eq rfl rfl rfl rfl rfl) fun _ is => by cases is

theorem bytes_cons (cache : Cache Key) (entry : Nat) (entries : List Nat) :
    cache.bytes (entry :: entries) = (cache.heap entry).bytes + cache.bytes entries := by
  simp [Cache.bytes]

theorem rotating_sorted {cache : Cache Key} {read : List (Nat × Nat)}
    (perm : (read.map (·.2)).Perm cache.entries) (exceeds : cache.maxBytes < cache.totalBytes) :
    cache.Rotating read (Cache.victims read) cache.totalBytes := by
  have order := (lruOrder_perm read).trans perm
  have some' : lruOrder read ≠ [] := by
    intro none
    rw [none] at order
    have empty : cache.entries = [] := order.symm.eq_nil
    simp [Cache.totalBytes, Cache.bytes, empty] at exceeds
  have split : (lruOrder read).dropLast ++ [(lruOrder read).getLast some'] = lruOrder read :=
    List.dropLast_append_getLast some'
  refine ⟨[], (lruOrder read).getLast some', ?_, ?_, rfl, by simp, by simp⟩
  · rw [victims_eq, List.nil_append, split]
  · rw [victims_eq, split]
    exact order.symm

theorem filter_ne_head {entry : Nat} {rest : List Nat} (apart : entry ∉ rest) :
    (entry :: rest).filter (· ≠ entry) = rest := by
  rw [List.filter_cons_of_neg (by simp), List.filter_eq_self]
  exact fun other member => decide_eq_true fun same => apart (same ▸ member)

theorem rotating_rotated {cache : Cache Key} {read : List (Nat × Nat)} {entry total : Nat}
    {victims : List Nat} (sound : Sound cache)
    (rotating : cache.Rotating read (entry :: victims) total) (exceeds : cache.maxBytes < total) :
    Cache.Rotating { cache.change entry Entry.evict with
        entries := cache.entries.filter (· ≠ entry)
        sweep := .removing entry (.rotating read victims (total - (cache.heap entry).bytes)) }
      read victims (total - (cache.heap entry).bytes) := by
  obtain ⟨dropped, last, order, perm, rfl, gone, exceeds'⟩ := rotating
  have member : entry ∈ cache.entries := perm.symm.subset List.mem_cons_self
  have nodup := perm.nodup sound.nodup
  have left : (cache.entries.filter (· ≠ entry)).Perm (victims ++ [last]) :=
    (perm.filter _).trans (.of_eq (filter_ne_head (List.nodup_cons.mp nodup).1))
  have total : cache.totalBytes =
      (cache.heap entry).bytes + cache.bytes (cache.entries.filter (· ≠ entry)) := by
    rw [Cache.totalBytes, bytes_perm cache perm, bytes_perm cache left, List.cons_append,
      bytes_cons]
  refine ⟨dropped ++ [entry], last, by rw [order]; simp, left, ?_, fun other inside => ?_,
    fun other is => ?_⟩
  · rw [total, Nat.add_sub_cancel_left]
    exact (bytes_congr fun other _ => evict_bytes cache entry other).symm
  · rcases List.mem_append.mp inside with old | new
    · exact ⟨(gone other old).1, (evict_evicted cache entry other).mpr (.inr (gone other old).2)⟩
    · cases List.mem_singleton.mp new
      exact ⟨sound.made entry member, (evict_evicted cache entry entry).mpr (.inl rfl)⟩
  · simp only [List.getLast?_append, List.getLast?_singleton, Option.some_or, Option.mem_def,
      Option.some.injEq] at is
    subst is
    have same := evict_bytes cache entry entry
    change cache.maxBytes < ((cache.change entry Entry.evict).heap entry).bytes + _
    omega

theorem Sound.evict {cache after : Cache Key} {entry : Nat} (sound : Sound cache)
    (member : entry ∈ cache.entries) (heap : after.heap = (cache.change entry Entry.evict).heap)
    (made : after.made = cache.made) (publishing : after.publishing = cache.publishing)
    (sub : after.entries.Sublist cache.entries) (swept : after.Swept after.sweep)
    (dooms : ∀ other ∈ after.entries, other = entry ∨ cache.sweep.Dooms other →
      after.sweep.Dooms other) : Sound after := by
  refine ⟨fun other inside => made ▸ sound.made other (sub.subset inside), sound.nodup.sublist sub,
    ?_, fun other is => ?_, swept, fun other inside evicted => ?_⟩
  · intro other inside other' inside' same
    rw [heap, evict_key, evict_key] at same
    exact sound.keys other (sub.subset inside) other' (sub.subset inside') same
  · obtain ⟨known, outside, alive⟩ := sound.pending other (publishing ▸ is)
    refine ⟨made ▸ known, fun inside => outside (sub.subset inside), ?_⟩
    rw [heap, Bool.eq_false_iff, ne_eq, evict_evicted, alive]
    rintro (rfl | evicted)
    · exact outside member
    · cases evicted
  · rw [heap, evict_evicted] at evicted
    exact dooms other inside (evicted.imp id (sound.live other (sub.subset inside)))

theorem Sound.advance {cache after : Cache Key} (sound : Sound cache)
    (heap : after.heap = cache.heap) (made : after.made = cache.made)
    (publishing : after.publishing = cache.publishing)
    (sub : after.entries.Sublist cache.entries) (swept : after.Swept after.sweep)
    (dooms : ∀ other ∈ after.entries, cache.sweep.Dooms other → after.sweep.Dooms other) :
    Sound after := by
  refine ⟨fun other inside => made ▸ sound.made other (sub.subset inside), sound.nodup.sublist sub,
    ?_, fun other is => ?_, swept, fun other inside evicted => ?_⟩
  · rw [heap]
    exact fun other inside other' inside' =>
      sound.keys other (sub.subset inside) other' (sub.subset inside')
  · obtain ⟨known, outside, alive⟩ := sound.pending other (publishing ▸ is)
    exact ⟨made ▸ known, fun inside => outside (sub.subset inside), heap ▸ alive⟩
  · exact dooms other inside (sound.live other (sub.subset inside) (heap ▸ evicted))

theorem subset_filter_ne {entry : Nat} {todo entries : List Nat} (apart : entry ∉ todo)
    (inside : todo ⊆ entries) : todo ⊆ entries.filter (· ≠ entry) := fun _ member =>
  List.mem_filter.mpr ⟨inside member, decide_eq_true fun same => apart (same ▸ member)⟩

theorem Sound.sweeps [DecidableEq Key] {cache after : Cache Key} {step : SweepStep}
    (sound : Sound cache) (sweeps : Sweeps cache step after) : Sound after := by
  have swept := sound.swept
  cases sweeps with
  | weighing now entry todo here =>
      rw [here] at swept
      exact sound.advance rfl rfl rfl (.refl _) swept fun _ _ dooms => by rwa [here] at dooms
  | read entry todo read here =>
      rw [here] at swept
      refine sound.advance rfl rfl rfl (.refl _) ⟨?_, swept.2⟩
        fun _ _ dooms => by rwa [here] at dooms
      simpa using swept.1
  | kept now idle entry todo here =>
      rw [here] at swept
      exact sound.advance rfl rfl rfl (.refl _)
        ⟨(List.nodup_cons.mp swept.1).2, (List.cons_subset.mp swept.2).2⟩
        fun _ _ dooms => by rwa [here] at dooms
  | condemned now idle entry todo here old =>
      rw [here] at swept
      exact sound.advance rfl rfl rfl (.refl _) swept fun _ _ dooms => by rwa [here] at dooms
  | reaped now entry todo here =>
      rw [here] at swept
      refine sound.evict (swept.2 List.mem_cons_self) rfl rfl rfl (.refl _) swept ?_
      rintro other member (rfl | dooms)
      · rfl
      · rw [here] at dooms
        exact dooms.elim
  | emptied entry todo here =>
      rw [here] at swept
      refine sound.evict (swept.2 List.mem_cons_self) rfl rfl rfl (.refl _) swept ?_
      rintro other member (rfl | dooms)
      · exact (List.nodup_cons.mp swept.1).1
      · rw [here] at dooms
        exact fun inside => dooms (List.mem_cons_of_mem _ inside)
  | unlinked entry rest name here =>
      exact sound.frame (.of_eq rfl rfl rfl rfl rfl) sound.pending
  | removed entry rest here _ | failed entry rest here =>
      rw [here] at swept
      cases rest with
      | ageing now todo =>
          obtain ⟨apart, nodup⟩ := List.nodup_cons.mp swept.1
          refine sound.advance rfl rfl rfl List.filter_sublist
            ⟨nodup, subset_filter_ne apart (List.cons_subset.mp swept.2).2⟩
            fun other member dooms => ?_
          rw [here] at dooms
          exact (of_decide_eq_true (List.mem_filter.mp member).2 dooms).elim
      | rotating read victims total =>
          exact sound.advance rfl rfl rfl (.refl _) swept.2.2 fun _ _ dooms => by
            rw [here] at dooms
            exact dooms.elim
      | clearing todo =>
          exact sound.advance rfl rfl rfl (.refl _)
            ⟨(List.nodup_cons.mp swept.1).2, (List.cons_subset.mp swept.2).2⟩
            fun _ _ dooms => by rwa [here] at dooms
  | aged now order after here iterates caps =>
      exact sound.caps (sound.alive fun _ _ => by rw [here]; exact id) iterates caps
  | sorted read here =>
      rw [here] at swept
      refine sound.advance rfl rfl rfl (.refl _) ?_ fun _ _ dooms => by rwa [here] at dooms
      exact rotating_sorted (by simpa using swept.1) swept.2
  | released read victims total here enough =>
      exact sound.release (sound.alive fun _ _ => by rw [here]; exact id)
  | rotated read entry victims total here exceeds =>
      rw [here] at swept
      have rotates := rotating_rotated sound swept exceeds
      obtain ⟨dropped, last, order, perm, -⟩ := swept
      have member : entry ∈ cache.entries := perm.symm.subset List.mem_cons_self
      refine sound.evict member rfl rfl rfl List.filter_sublist
        ⟨by simp, sound.made entry member, rotates⟩ ?_
      rintro other inside (rfl | dooms)
      · simp at inside
      · rw [here] at dooms
        exact dooms.elim
  | cleared here =>
      exact sound.advance rfl rfl rfl (List.nil_sublist _) trivial fun _ member => by cases member

theorem lookup_eq_some [DecidableEq Key] {cache : Cache Key} {key : Key} {entry : Nat}
    (found : cache.lookup key = some entry) :
    entry ∈ cache.entries ∧ (cache.heap entry).key = key :=
  ⟨List.mem_of_find?_eq_some found, by simpa using List.find?_some found⟩

theorem Sound.change {cache : Cache Key} {entry : Nat} {f : Entry Key → Entry Key}
    (sound : Sound cache) (key : (f (cache.heap entry)).key = (cache.heap entry).key)
    (bytes : (f (cache.heap entry)).bytes = (cache.heap entry).bytes)
    (evicted : (f (cache.heap entry)).evicted = (cache.heap entry).evicted) :
    Sound (cache.change entry f) := by
  have frame : Frame cache (cache.change entry f) := .change cache key bytes evicted
  refine sound.frame frame fun other is => ?_
  obtain ⟨known, outside, alive⟩ := sound.pending other is
  exact ⟨known, outside, frame.evicted other known ▸ alive⟩

theorem Sound.gets [DecidableEq Key] {cache after : Cache Key} {caller : Nat}
    {getting next : Getting Key} (sound : Sound cache)
    (gets : Gets cache caller getting after next) : Sound after := by
  cases gets with
  | hit key entry free found =>
      refine sound.advance rfl rfl rfl (.refl _) (lookup_eq_some found).1 fun _ _ dooms => ?_
      rwa [free] at dooms
  | touched entry now here =>
      have changed : Sound (cache.change entry (·.touch now)) := sound.change rfl rfl rfl
      refine changed.advance rfl rfl rfl (.refl _) trivial fun _ _ dooms => ?_
      change cache.sweep.Dooms _ at dooms
      rwa [here] at dooms
  | dropped entry free held =>
      refine sound.evict (lookup_eq_some held).1 rfl rfl rfl List.filter_sublist ?_ ?_
      · change Cache.Swept _ cache.sweep
        rw [free]
        trivial
      · rintro other inside (rfl | dooms)
        · simp at inside
        · rw [free] at dooms
          exact dooms.elim
  | _ => exact sound

theorem Sound.move [DecidableEq Key] {cache after : Cache Key} {event : Event Key}
    (sound : Sound cache) (move : Move cache event after) : Sound after := by
  cases move with
  | publish key shipped idle =>
      exact sound.frame (.of_eq rfl rfl rfl rfl rfl) fun _ is => by cases is
  | publisher publishes => exact sound.publishes publishes
  | ages order free iterates =>
      refine sound.advance rfl rfl rfl (.refl _)
        ⟨iterates.nodup_iff.mpr sound.nodup, iterates.subset⟩ fun _ _ dooms => ?_
      rwa [free] at dooms
  | caps order after free iterates caps =>
      exact sound.caps (sound.alive fun _ _ => by rw [free]; exact id) iterates caps
  | clear order free iterates =>
      refine sound.advance rfl rfl rfl (.refl _)
        ⟨iterates.nodup_iff.mpr sound.nodup, iterates.subset⟩ fun _ _ dooms => ?_
      rw [free] at dooms
      exact dooms.elim
  | sweeper sweeps => exact sound.sweeps sweeps
  | get key => exact sound.frame (.of_eq rfl rfl rfl rfl rfl) sound.pending
  | @getter caller getting next moved here gets =>
      exact (sound.gets gets).frame (.of_eq rfl rfl rfl rfl rfl) (sound.gets gets).pending
  | fetch entry name known => exact sound.change rfl rfl rfl
  | tick => exact sound.frame (.of_eq rfl rfl rfl rfl rfl) sound.pending

theorem sound_of_reaches [DecidableEq Key] [Inhabited Key] {maxBytes unfetchedTtl : Nat}
    {ok : Cache Key → Event Key → Prop} {cache : Cache Key}
    (run : (Cache.system maxBytes unfetchedTtl).Reaches ok (.new maxBytes unfetchedTtl) cache) :
    Sound cache :=
  run.invariant ⟨by simp [Cache.new], by simp [Cache.new], by simp [Cache.new],
      fun _ is => (by cases is), trivial, by simp [Cache.new]⟩
    fun _ _ _ _ sound _ done => sound.move (move_of_step done)

end Stemd.Store
