import Mathlib.Data.List.Nodup
import Mathlib.Data.List.Sort

/-! What a stable sort puts after an item.

Items that compare equal keep the order they came in, so that what follows an item depends
on the comparison and, among equals, on who came first. -/

set_option autoImplicit false

namespace Stemd.Semantics

variable {α : Type}

theorem pair_of_split {front back : List α} {item other : α} (member : other ∈ back) :
    [item, other].Sublist (front ++ item :: back) :=
  ((List.singleton_sublist.mpr member).cons_cons item).trans (List.sublist_append_right _ _)

theorem pair_or_pair {items : List α} {item other : α} (here : item ∈ items)
    (there : other ∈ items) (apart : other ≠ item) :
    [item, other].Sublist items ∨ [other, item].Sublist items := by
  obtain ⟨front, back, rfl⟩ := List.append_of_mem here
  rcases List.mem_append.mp there with before | after
  · refine .inr ?_
    exact (List.singleton_sublist.mpr before).append (List.singleton_sublist.mpr List.mem_cons_self)
  · exact .inl (pair_of_split ((List.mem_cons.mp after).resolve_left apart))

theorem not_pair_of_pair {items : List α} {item other : α} (nodup : items.Nodup)
    (pair : [item, other].Sublist items) : ¬ [other, item].Sublist items := by
  intro swapped
  induction items with
  | nil => cases pair
  | cons head rest ih =>
      obtain ⟨outside, nodup⟩ := List.nodup_cons.mp nodup
      rcases List.sublist_cons_iff.mp pair with inside | ⟨tail, same, -⟩
      · rcases List.sublist_cons_iff.mp swapped with inside' | ⟨tail', same', -⟩
        · exact ih nodup inside inside'
        · cases same'
          exact outside (inside.subset (by simp))
      · cases same
        rcases List.sublist_cons_iff.mp swapped with inside' | ⟨tail', same', later⟩
        · exact outside (inside'.subset (by simp))
        · cases same'
          exact outside (later.subset (by simp))

variable {r : α → α → Prop} [DecidableRel r] [Std.Total r] [IsTrans α r]

/-- What comes after an item compares greater, or equal and came in later. -/
theorem mem_after_insertionSort {items front back : List α} {item other : α}
    (nodup : items.Nodup) (split : items.insertionSort r = front ++ item :: back) :
    other ∈ back ↔ other ∈ items ∧
      (¬ r other item ∨ r item other ∧ [item, other].Sublist items) := by
  have perm := List.perm_insertionSort r items
  have sorted := List.pairwise_insertionSort r items
  have once := perm.symm.nodup nodup
  have here : item ∈ items := perm.subset (by simp [split])
  rw [split] at sorted once
  obtain ⟨-, after, before⟩ := List.pairwise_append.mp sorted
  constructor
  · intro member
    have pair : [item, other].Sublist (items.insertionSort r) := split ▸ pair_of_split member
    have there : other ∈ items := perm.subset (pair.subset (by simp))
    have below : r item other := List.rel_of_pairwise_cons after member
    refine ⟨there, or_iff_not_imp_left.mpr fun above => ⟨below, ?_⟩⟩
    have apart : other ≠ item := by
      rintro rfl
      exact (List.nodup_cons.mp (List.nodup_append.mp once).2.1).1 member
    refine (pair_or_pair here there apart).resolve_right fun swapped => ?_
    exact not_pair_of_pair (split ▸ once) pair
      (List.pair_sublist_insertionSort (not_not.mp above) swapped)
  · rintro ⟨there, later⟩
    have sorted' : other ∈ front ++ item :: back := split ▸ perm.symm.subset there
    rcases List.mem_append.mp sorted' with first | rest
    · have swapped : [other, item].Sublist (items.insertionSort r) := by
        rw [split]
        exact (List.singleton_sublist.mpr first).append
          (List.singleton_sublist.mpr List.mem_cons_self)
      rcases later with above | ⟨below, pair⟩
      · exact absurd (before other first item List.mem_cons_self) above
      · exact absurd swapped (not_pair_of_pair (split ▸ once)
          (List.pair_sublist_insertionSort below pair))
    · refine (List.mem_cons.mp rest).resolve_left ?_
      rintro rfl
      rcases later with above | ⟨-, pair⟩
      · exact above ((total_of r other other).elim id id)
      · exact List.nodup_iff_sublist.mp nodup other pair

end Stemd.Semantics
