import Mathlib.Algebra.Order.BigOperators.Group.List
import Mathlib.Algebra.Ring.Nat
import Mathlib.Data.List.Sort

/-! What one sweep of the cache takes when nothing else runs.

Sizes are 64 bits wide, and so are their sums, which wrap. A map is iterated in an order of its
own: it decides between entries that were last used at one time, and nothing else. -/

set_option autoImplicit false

namespace Stemd.Store.Reaping

structure Entry (Key : Type) where
  key : Key
  bytes : UInt64
  lastUsed : Nat
  unfetched : List String
  evicted : Bool
  deriving DecidableEq

def Entry.consumed {Key : Type} (entry : Entry Key) : Bool := entry.unfetched.isEmpty

/-- The index: a map, so that no two entries have one key. -/
structure Index (Key : Type) where
  entries : List (Entry Key)
  distinct : (entries.map Entry.key).Nodup

structure Iteration (Key : Type) where
  order : List (Entry Key) → List (Entry Key)
  perm : ∀ entries, (order entries).Perm entries

structure Limits where
  maxBytes : UInt64
  unfetchedTtl : Nat

structure Reaped where
  unfetched : Nat
  rotated : Nat
  bytes : UInt64
  deriving DecidableEq

structure Ageing (Key : Type) where
  kept : List (Entry Key)
  deleted : List (Entry Key)
  unfetched : Nat
  bytes : UInt64

structure Rotation (Key : Type) where
  entries : List (Entry Key)
  total : UInt64
  count : Nat
  freed : UInt64
  deleted : List (Entry Key)
  taken : List (UInt64 × UInt64)

structure Outcome (Key : Type) where
  entries : List (Entry Key)
  aged : List (Entry Key)
  rotated : List (Entry Key)
  reaped : Reaped
  taken : List (UInt64 × UInt64)

section

variable {Key : Type}

/-- The tombstone, whatever becomes of the directory. -/
def delete (entry : Entry Key) : Entry Key := { entry with evicted := true }

def sumBytes (entries : List (Entry Key)) : UInt64 :=
  entries.foldr (fun entry total => entry.bytes + total) 0

def totalBytes (map : Iteration Key) (entries : List (Entry Key)) : UInt64 :=
  sumBytes (map.order entries)

def underPressure (map : Iteration Key) (limits : Limits) (entries : List (Entry Key)) : Bool :=
  limits.maxBytes / 2 < totalBytes map entries

/-- One entry, in `retain`. -/
def age (limits : Limits) (now : Nat) (ageing : Ageing Key) (entry : Entry Key) : Ageing Key :=
  let idle := now - entry.lastUsed
  if entry.consumed ∨ idle ≤ limits.unfetchedTtl then
    { ageing with kept := ageing.kept ++ [entry] }
  else { ageing with
    deleted := ageing.deleted ++ [delete entry]
    unfetched := ageing.unfetched + 1
    bytes := ageing.bytes + entry.bytes }

/-- Rule 1: give up the separations nobody came back for, once space starts to matter. -/
def ruleOne (map : Iteration Key) (limits : Limits) (now : Nat) (entries : List (Entry Key)) :
    Ageing Key :=
  if underPressure map limits entries then
    (map.order entries).foldl (age limits now) ⟨[], [], 0, 0⟩
  else ⟨entries, [], 0, 0⟩

variable [DecidableEq Key]

def Rotation.remove (rotation : Rotation Key) (entry : Entry Key) : Rotation Key where
  entries := rotation.entries.filter (·.key ≠ entry.key)
  total := rotation.total - entry.bytes
  count := rotation.count + 1
  freed := rotation.freed + entry.bytes
  deleted := rotation.deleted ++ [delete entry]
  taken := rotation.taken ++ [(rotation.total, entry.bytes)]

/-- The loop of `enforce_cap`, over the keys in order of last use. -/
def rotate (limits : Limits) : List Key → Rotation Key → Rotation Key
  | [], rotation => rotation
  | key :: order, rotation =>
    if rotation.total ≤ limits.maxBytes then rotation
    else match rotation.entries.find? (·.key = key) with
      | some entry => rotate limits order (rotation.remove entry)
      | none => rotate limits order rotation

def lruOrder (map : Iteration Key) (entries : List (Entry Key)) : List (Entry Key) :=
  (map.order entries).insertionSort (·.lastUsed ≤ ·.lastUsed)

/-- Drop least-recently-used entries until the store fits. -/
def enforceCap (map : Iteration Key) (limits : Limits) (entries : List (Entry Key)) :
    Rotation Key :=
  let total := totalBytes map entries
  let unchanged : Rotation Key := ⟨entries, total, 0, 0, [], []⟩
  if total ≤ limits.maxBytes then unchanged
  else rotate limits ((lruOrder map entries).map Entry.key).dropLast unchanged

def reap (map : Iteration Key) (limits : Limits) (now : Nat) (entries : List (Entry Key)) :
    Outcome Key :=
  let ageing := ruleOne map limits now entries
  let rotation := enforceCap map limits ageing.kept
  { entries := rotation.entries
    aged := ageing.deleted
    rotated := rotation.deleted
    reaped := ⟨ageing.unfetched, rotation.count, ageing.bytes + rotation.freed⟩
    taken := rotation.taken }

end

section

variable {Key : Type}

def weight (entries : List (Entry Key)) : Nat := (entries.map fun entry => entry.bytes.toNat).sum

@[simp] theorem weight_nil : weight ([] : List (Entry Key)) = 0 := rfl

@[simp] theorem weight_cons (entry : Entry Key) (rest : List (Entry Key)) :
    weight (entry :: rest) = entry.bytes.toNat + weight rest := rfl

theorem weight_append (front back : List (Entry Key)) :
    weight (front ++ back) = weight front + weight back := by
  simp [weight]

theorem weight_perm {entries other : List (Entry Key)} (perm : entries.Perm other) :
    weight entries = weight other :=
  (perm.map _).sum_eq

theorem weight_filter_add (p : Entry Key → Bool) (entries : List (Entry Key)) :
    weight (entries.filter p) + weight (entries.filter fun entry => !p entry) = weight entries := by
  induction entries with
  | nil => rfl
  | cons entry rest ih =>
      by_cases kept : p entry = true <;> simp [kept] <;> omega

theorem sumBytes_cons (entry : Entry Key) (rest : List (Entry Key)) :
    sumBytes (entry :: rest) = entry.bytes + sumBytes rest := rfl

theorem sumBytes_toNat {entries : List (Entry Key)} (fits : weight entries < 2 ^ 64) :
    (sumBytes entries).toNat = weight entries := by
  induction entries with
  | nil => rfl
  | cons entry rest ih =>
      rw [weight_cons] at fits ⊢
      rw [sumBytes_cons, UInt64.toNat_add, ih (by omega), Nat.mod_eq_of_lt fits]

theorem totalBytes_toNat (map : Iteration Key) {entries : List (Entry Key)}
    (fits : weight entries < 2 ^ 64) : (totalBytes map entries).toNat = weight entries := by
  have same := weight_perm (map.perm entries)
  rw [totalBytes, sumBytes_toNat (same ▸ fits), same]

theorem totalBytes_le_iff (map : Iteration Key) (limits : Limits) {entries : List (Entry Key)}
    (fits : weight entries < 2 ^ 64) :
    totalBytes map entries ≤ limits.maxBytes ↔ weight entries ≤ limits.maxBytes.toNat := by
  rw [UInt64.le_iff_toNat_le, totalBytes_toNat map fits]

theorem underPressure_iff (map : Iteration Key) (limits : Limits) {entries : List (Entry Key)}
    (fits : weight entries < 2 ^ 64) : underPressure map limits entries ↔
      limits.maxBytes.toNat / 2 < weight entries := by
  rw [underPressure, decide_eq_true_iff, UInt64.lt_iff_toNat_lt, totalBytes_toNat map fits]
  rfl

/-- Separated, never wholly pulled, and idle for too long. -/
def Unwanted (limits : Limits) (now : Nat) (entry : Entry Key) : Bool :=
  !entry.consumed && decide (limits.unfetchedTtl < now - entry.lastUsed)

def expired (limits : Limits) (now : Nat) (entries : List (Entry Key)) : List (Entry Key) :=
  if limits.maxBytes.toNat / 2 < weight entries then entries.filter (Unwanted limits now) else []

def remaining (limits : Limits) (now : Nat) (entries : List (Entry Key)) : List (Entry Key) :=
  if limits.maxBytes.toNat / 2 < weight entries then
    entries.filter fun entry => !Unwanted limits now entry
  else entries

theorem weight_expired_add (limits : Limits) (now : Nat) (entries : List (Entry Key)) :
    weight (expired limits now entries) + weight (remaining limits now entries) =
      weight entries := by
  unfold expired remaining
  split
  · exact weight_filter_add ..
  · rw [weight_nil, Nat.zero_add]

theorem remaining_sublist (limits : Limits) (now : Nat) (entries : List (Entry Key)) :
    (remaining limits now entries).Sublist entries := by
  unfold remaining
  split
  · exact List.filter_sublist
  · exact List.Sublist.refl _

theorem age_eq (limits : Limits) (now : Nat) (ageing : Ageing Key) (entry : Entry Key) :
    age limits now ageing entry = if Unwanted limits now entry then
      ⟨ageing.kept, ageing.deleted ++ [delete entry], ageing.unfetched + 1,
        ageing.bytes + entry.bytes⟩
    else ⟨ageing.kept ++ [entry], ageing.deleted, ageing.unfetched, ageing.bytes⟩ := by
  by_cases consumed : entry.consumed = true <;>
    by_cases idle : now - entry.lastUsed ≤ limits.unfetchedTtl <;>
      simp [age, Unwanted, consumed, idle]

theorem foldl_age (limits : Limits) (now : Nat) (entries : List (Entry Key)) (ageing : Ageing Key) :
    entries.foldl (age limits now) ageing =
      ⟨ageing.kept ++ entries.filter fun entry => !Unwanted limits now entry,
        ageing.deleted ++ (entries.filter (Unwanted limits now)).map delete,
        ageing.unfetched + (entries.filter (Unwanted limits now)).length,
        ageing.bytes + sumBytes (entries.filter (Unwanted limits now))⟩ := by
  induction entries generalizing ageing with
  | nil => simp [sumBytes]
  | cons entry rest ih =>
      rw [List.foldl_cons, ih, age_eq]
      by_cases unwanted : Unwanted limits now entry = true
      · simp [unwanted, sumBytes, UInt64.add_assoc, Nat.add_assoc, Nat.add_comm]
      · simp [unwanted]

variable [DecidableEq Key]

theorem find_entry {entries rest : List (Entry Key)} {entry : Entry Key}
    (perm : entries.Perm (entry :: rest)) (distinct : ((entry :: rest).map Entry.key).Nodup) :
    entries.find? (·.key = entry.key) = some entry := by
  have here : entry ∈ entries := perm.symm.subset List.mem_cons_self
  obtain ⟨found, is⟩ : ∃ found, entries.find? (·.key = entry.key) = some found :=
    Option.isSome_iff_exists.mp (List.find?_isSome.mpr ⟨entry, here, decide_eq_true rfl⟩)
  have same : found.key = entry.key := by simpa using List.find?_some is
  have member : found ∈ entry :: rest := perm.subset (List.mem_of_find?_eq_some is)
  rw [is, List.inj_on_of_nodup_map distinct member List.mem_cons_self same]

theorem filter_entry {entries rest : List (Entry Key)} {entry : Entry Key}
    (perm : entries.Perm (entry :: rest)) (distinct : ((entry :: rest).map Entry.key).Nodup) :
    (entries.filter (·.key ≠ entry.key)).Perm rest := by
  rw [List.map_cons, List.nodup_cons] at distinct
  have others : (entry :: rest).filter (·.key ≠ entry.key) = rest := by
    rw [List.filter_cons_of_neg (by simp), List.filter_eq_self]
    exact fun other member => decide_eq_true fun same =>
      distinct.1 (same ▸ List.mem_map_of_mem member)
  exact others ▸ perm.filter _

structure Rotates (limits : Limits) (order : List (Entry Key)) (turns n : Nat)
    (before after : Rotation Key) : Prop where
  within : n ≤ turns
  left : after.entries.Perm (order.drop n)
  deleted : after.deleted = before.deleted ++ (order.take n).map delete
  count : after.count = before.count + n
  freed : after.freed = before.freed + sumBytes (order.take n)
  exceeded : ∀ m < n, limits.maxBytes.toNat < weight (order.drop m)
  enough : weight (order.drop n) ≤ limits.maxBytes.toNat ∨ n = turns
  taken : ∀ pair ∈ after.taken, pair ∈ before.taken ∨ pair.2 ≤ pair.1

theorem rotate_spec (limits : Limits) {turns : Nat} {order : List (Entry Key)}
    {rotation : Rotation Key} (bound : turns ≤ order.length)
    (distinct : (order.map Entry.key).Nodup) (left : rotation.entries.Perm order)
    (total : rotation.total.toNat = weight order) :
    ∃ n, Rotates limits order turns n rotation
      (rotate limits ((order.take turns).map Entry.key) rotation) := by
  -- Along the order of last use: what is still there is what the order has yet to come to.
  induction turns generalizing order rotation with
  | zero =>
      refine ⟨0, le_refl 0, left, ?_, rfl, ?_, nofun, .inr rfl, fun pair member => .inl member⟩
      · exact (List.append_nil _).symm
      · exact (UInt64.add_zero _).symm
  | succ turns ih =>
      obtain _ | ⟨entry, rest⟩ := order
      · exact absurd bound (by simp)
      rw [List.take_succ_cons, List.map_cons, rotate]
      split
      · rename_i fits
        rw [UInt64.le_iff_toNat_le, total] at fits
        refine ⟨0, Nat.zero_le _, left, ?_, rfl, ?_, nofun, .inl fits,
          fun pair member => .inl member⟩
        · exact (List.append_nil _).symm
        · exact (UInt64.add_zero _).symm
      · rename_i exceeds
        rw [UInt64.le_iff_toNat_le, total, not_le] at exceeds
        rw [find_entry left distinct]
        rw [weight_cons] at total
        -- The total counts this entry, so that taking it off cannot go below zero.
        have enough : entry.bytes ≤ rotation.total := by
          rw [UInt64.le_iff_toNat_le, total]
          exact Nat.le_add_right _ _
        have less : (rotation.remove entry).total.toNat = weight rest := by
          rw [Rotation.remove, UInt64.toNat_sub_of_le _ _ enough, total, Nat.add_sub_cancel_left]
        obtain ⟨n, later⟩ := ih (Nat.le_of_succ_le_succ bound) (List.nodup_cons.mp distinct).2
          (filter_entry left distinct) less
        refine ⟨n + 1, Nat.succ_le_succ later.within, later.left, ?_, ?_, ?_, ?_, ?_, ?_⟩
        · rw [later.deleted, Rotation.remove, List.append_assoc]
          rfl
        · rw [later.count]
          exact Nat.add_right_comm ..
        · rw [later.freed, Rotation.remove, UInt64.add_assoc]
          rfl
        · intro m before
          obtain _ | m := m
          · exact exceeds
          · exact later.exceeded m (Nat.lt_of_succ_lt_succ before)
        · exact later.enough.imp_right (congrArg _)
        · intro pair member
          rcases later.taken pair member with before | fits
          · rcases List.mem_append.mp before with before | this
            · exact .inl before
            · obtain rfl := List.mem_singleton.mp this
              exact .inr enough
          · exact .inr fits

/-- How far rule 2 goes at the least: until what is left fits, or is one entry. -/
def Enough (limits : Limits) (left : List (Entry Key)) : Prop :=
  weight left ≤ limits.maxBytes.toNat ∨ left.length ≤ 1

/-- What a sweep does to a store. The entries that rule 1 leaves go in order of last use. -/
structure Exact (limits : Limits) (now : Nat) (entries order : List (Entry Key)) (n : Nat)
    (outcome : Outcome Key) : Prop where
  perm : order.Perm (remaining limits now entries)
  sorted : order.Pairwise (·.lastUsed ≤ ·.lastUsed)
  aged : outcome.aged.Perm ((expired limits now entries).map delete)
  rotated : outcome.rotated = (order.take n).map delete
  left : outcome.entries.Perm (order.drop n)
  spared : order ≠ [] → n < order.length
  enough : Enough limits (order.drop n)
  shortest : ∀ m < n, ¬ Enough limits (order.drop m)
  fits : weight outcome.entries ≤ limits.maxBytes.toNat ∨ outcome.entries.length = 1
  unfetched : outcome.reaped.unfetched = (expired limits now entries).length
  count : outcome.reaped.rotated = n
  bytes : outcome.reaped.bytes.toNat =
    weight (expired limits now entries) + weight (order.take n)
  taken : ∀ pair ∈ outcome.taken, pair.2 ≤ pair.1

structure Aged (limits : Limits) (now : Nat) (entries : List (Entry Key)) (ageing : Ageing Key) :
    Prop where
  kept : ageing.kept.Perm (remaining limits now entries)
  deleted : ageing.deleted.Perm ((expired limits now entries).map delete)
  unfetched : ageing.unfetched = (expired limits now entries).length
  bytes : ageing.bytes.toNat = weight (expired limits now entries)

omit [DecidableEq Key] in
theorem ruleOne_spec (map : Iteration Key) (limits : Limits) (now : Nat)
    {entries : List (Entry Key)} (fits : weight entries < 2 ^ 64) :
    Aged limits now entries (ruleOne map limits now entries) := by
  have perm := map.perm entries
  rw [ruleOne]
  split
  · rename_i pressed
    have past := (underPressure_iff map limits fits).mp pressed
    have gone : expired limits now entries = entries.filter (Unwanted limits now) := if_pos past
    have left : remaining limits now entries =
        entries.filter fun entry => !Unwanted limits now entry := if_pos past
    have parts := weight_expired_add limits now entries
    have same := perm.filter (Unwanted limits now)
    rw [foldl_age]
    refine ⟨?_, ?_, ?_, ?_⟩
    · rw [left]
      exact perm.filter _
    · rw [gone]
      exact same.map _
    · rw [gone]
      exact (Nat.zero_add _).trans same.length_eq
    · rw [gone] at parts ⊢
      rw [UInt64.zero_add, sumBytes_toNat (by rw [weight_perm same]; omega), weight_perm same]
  · rename_i free
    -- Below the mark the rule is not even tried.
    have under := (underPressure_iff map limits fits).not.mp free
    have gone : expired limits now entries = [] := if_neg under
    have left : remaining limits now entries = entries := if_neg under
    refine ⟨?_, ?_, ?_, ?_⟩
    · rw [left]
    · rw [gone]
      exact .refl _
    · rw [gone]
      rfl
    · rw [gone]
      rfl

theorem enforceCap_spec (map : Iteration Key) (limits : Limits) {entries : List (Entry Key)}
    (distinct : (entries.map Entry.key).Nodup) (fits : weight entries < 2 ^ 64) :
    ∃ n, Rotates limits (lruOrder map entries) (entries.length - 1) n
      ⟨entries, totalBytes map entries, 0, 0, [], []⟩ (enforceCap map limits entries) := by
  have perm : (lruOrder map entries).Perm entries :=
    (List.perm_insertionSort _ _).trans (map.perm entries)
  have total := totalBytes_toNat map fits
  rw [enforceCap]
  split
  · rename_i under
    rw [totalBytes_le_iff map limits fits, ← weight_perm perm] at under
    exact ⟨0, Nat.zero_le _, perm.symm, rfl, rfl, rfl, nofun, .inl under, nofun⟩
  -- The entry used last is never looked at, whatever the order makes of ties.
  · have keys : ((lruOrder map entries).map Entry.key).dropLast =
        ((lruOrder map entries).take (entries.length - 1)).map Entry.key := by
      rw [List.dropLast_eq_take, List.map_take, List.length_map, perm.length_eq]
    rw [keys]
    exact rotate_spec limits (by rw [perm.length_eq]; exact Nat.sub_le ..)
      ((perm.map _).symm.nodup distinct) perm.symm (total.trans (weight_perm perm).symm)

section

variable {limits : Limits} {order : List (Entry Key)} {n : Nat} {before after : Rotation Key}
  (rotates : Rotates limits order (order.length - 1) n before after)

include rotates

omit [DecidableEq Key] in
theorem Rotates.suffices : Enough limits (order.drop n) := by
  refine rotates.enough.imp_right fun all => ?_
  rw [List.length_drop, all]
  omega

omit [DecidableEq Key] in
theorem Rotates.shortest : ∀ m < n, ¬ Enough limits (order.drop m) := by
  rintro m earlier (fits | single)
  · exact absurd (rotates.exceeded m earlier) (not_lt.mpr fits)
  · have within := rotates.within
    rw [List.length_drop] at single
    omega

omit [DecidableEq Key] in
theorem Rotates.fits :
    weight after.entries ≤ limits.maxBytes.toNat ∨ after.entries.length = 1 := by
  rw [weight_perm rotates.left, rotates.left.length_eq]
  rcases rotates.suffices with fits | single
  · exact .inl fits
  · rcases Nat.le_one_iff_eq_zero_or_eq_one.mp single with none | one
    · rw [List.length_eq_zero_iff.mp none]
      exact .inl (Nat.zero_le _)
    · exact .inr one

end

/-- Undisturbed, and with sizes that add up to something that can be counted, each rule takes what
it says and no more. -/
theorem reap_exact (map : Iteration Key) (limits : Limits) (now : Nat) (index : Index Key)
    (fits : weight index.entries < 2 ^ 64) :
    ∃ order n, Exact limits now index.entries order n (reap map limits now index.entries) := by
  have parts := weight_expired_add limits now index.entries
  have aged := ruleOne_spec map limits now fits
  let kept := (ruleOne map limits now index.entries).kept
  have light : weight kept < 2 ^ 64 := by
    rw [weight_perm aged.kept]
    omega
  have distinct : (kept.map Entry.key).Nodup := (aged.kept.map _).symm.nodup
    (index.distinct.sublist ((remaining_sublist limits now index.entries).map _))
  obtain ⟨n, rotates⟩ := enforceCap_spec map limits distinct light
  have perm : (lruOrder map kept).Perm kept :=
    (List.perm_insertionSort _ _).trans (map.perm kept)
  rw [← perm.length_eq] at rotates
  have freed := weight_append ((lruOrder map kept).take n) ((lruOrder map kept).drop n)
  rw [List.take_append_drop, weight_perm perm, weight_perm aged.kept] at freed
  refine ⟨lruOrder map kept, n, perm.trans aged.kept, List.pairwise_insertionSort .., aged.deleted,
    rotates.deleted, rotates.left, fun some => ?_, rotates.suffices, rotates.shortest, rotates.fits,
    aged.unfetched, ?_, ?_, fun pair member => (rotates.taken pair member).resolve_left nofun⟩
  · exact Nat.lt_of_le_pred (List.length_pos_iff.mpr some) rotates.within
  · exact rotates.count.trans (Nat.zero_add n)
  · have taken : (sumBytes ((lruOrder map kept).take n)).toNat =
        weight ((lruOrder map kept).take n) :=
      sumBytes_toNat (by omega)
    have sum : (reap map limits now index.entries).reaped.bytes =
        (ruleOne map limits now index.entries).bytes + sumBytes ((lruOrder map kept).take n) := by
      rw [← UInt64.zero_add (sumBytes _)]
      exact congrArg ((ruleOne map limits now index.entries).bytes + ·) rotates.freed
    rw [sum, UInt64.toNat_add, aged.bytes, taken, Nat.mod_eq_of_lt (by omega)]

end

def asListed (Key : Type) : Iteration Key := ⟨id, .refl⟩

def threeTracks : Index Nat where
  entries := [⟨2, 6, 95, [], false⟩, ⟨0, 6, 0, ["vocals"], false⟩, ⟨1, 6, 90, [], false⟩]
  distinct := (by decide : [2, 0, 1].Nodup)

/-- A store that holds more than twice what it may: each rule takes one track. -/
theorem unwanted_then_older_go : weight threeTracks.entries < 2 ^ 64 ∧
    (∃ order n, Exact ⟨8, 60⟩ 100 threeTracks.entries order n
      (reap (asListed Nat) ⟨8, 60⟩ 100 threeTracks.entries)) ∧
    (reap (asListed Nat) ⟨8, 60⟩ 100 threeTracks.entries).reaped = ⟨1, 1, 12⟩ ∧
    (reap (asListed Nat) ⟨8, 60⟩ 100 threeTracks.entries).entries = [⟨2, 6, 95, [], false⟩] :=
  ⟨by decide, reap_exact (asListed Nat) ⟨8, 60⟩ 100 threeTracks (by decide), by decide, by decide⟩

def twoTracks (bytes : UInt64) : Index Nat where
  entries := [⟨0, bytes, 0, [], false⟩, ⟨1, bytes, 1, [], false⟩]
  distinct := (by decide : [0, 1].Nodup)

def wide : UInt64 := 9223372036854775808

/-- Sizes that add up to nothing: the store stays at twice what it may hold. -/
theorem wrapped_total_is_kept :
    (reap (asListed Nat) ⟨wide, 60⟩ 2 (twoTracks wide).entries).entries = (twoTracks wide).entries ∧
      ¬ ∃ order n, Exact ⟨wide, 60⟩ 2 (twoTracks wide).entries order n
        (reap (asListed Nat) ⟨wide, 60⟩ 2 (twoTracks wide).entries) := by
  have same : (reap (asListed Nat) ⟨wide, 60⟩ 2 (twoTracks wide).entries).entries =
      (twoTracks wide).entries := by decide
  refine ⟨same, fun ⟨order, n, exact⟩ => ?_⟩
  have fits := exact.fits
  rw [same] at fits
  exact absurd fits (by decide)

end Stemd.Store.Reaping
