import Mathlib.Data.List.Nodup

/-! A line that is joined at its end, served at its front and left from anywhere.

Whoever stays in it only ever moves up, one place at a time, and by one place only as the line gets
shorter by one. -/

set_option autoImplicit false

namespace Stemd.Semantics

inductive Shifts {α : Type} [DecidableEq α] : List α → List α → Prop where
  | stays (line : List α) : Shifts line line
  | joins (line : List α) (item : α) : Shifts line (line ++ [item])
  | leaves (line : List α) (item : α) : Shifts line (line.filter (· ≠ item))
  | served (item : α) (line : List α) : Shifts (item :: line) line

variable {α : Type} [DecidableEq α] {before after : List α} {item : α}

theorem filter_ne_of_notMem {line : List α} (absent : item ∉ line) :
    line.filter (· ≠ item) = line :=
  List.filter_eq_self.mpr fun _ member => decide_eq_true fun same => absent (same ▸ member)

/-- Whoever stays is where they were, or one place further up a line shorter by one. -/
theorem Shifts.place (shifts : Shifts before after) (distinct : before.Nodup)
    (stood : item ∈ before) (stands : item ∈ after) :
    after.idxOf item = before.idxOf item ∨
      after.idxOf item + 1 = before.idxOf item ∧ after.length + 1 = before.length := by
  cases shifts with
  | stays => exact .inl rfl
  | joins _ other => exact .inl (List.idxOf_append_of_mem stood)
  | served first =>
      have apart : first ≠ item := fun same => (List.nodup_cons.mp distinct).1 (same ▸ stands)
      exact .inr ⟨(List.idxOf_cons_ne _ apart).symm, rfl⟩
  | leaves _ other =>
      -- Whoever leaves is ahead, in which case all behind move up, or behind, and nothing moves.
      induction before with
      | nil => cases stood
      | cons head rest ih =>
          obtain ⟨absent, distinct⟩ := List.nodup_cons.mp distinct
          by_cases gone : head = other
          · subst gone
            rw [List.filter_cons_of_neg (by simp), filter_ne_of_notMem absent] at stands ⊢
            have apart : head ≠ item := fun same => absent (same ▸ stands)
            exact .inr ⟨(List.idxOf_cons_ne _ apart).symm, rfl⟩
          · rw [List.filter_cons_of_pos (by simpa using gone)] at stands ⊢
            by_cases mine : head = item
            · subst mine
              exact .inl (by rw [List.idxOf_cons_self, List.idxOf_cons_self])
            · have stood := (List.mem_cons.mp stood).resolve_left (Ne.symm mine)
              have stands := (List.mem_cons.mp stands).resolve_left (Ne.symm mine)
              rw [List.idxOf_cons_ne _ mine, List.idxOf_cons_ne _ mine, List.length_cons,
                List.length_cons]
              rcases ih distinct stood stands with same | ⟨moved, shorter⟩
              · exact .inl (by rw [same])
              · exact .inr ⟨by omega, by omega⟩

end Stemd.Semantics
