import Stemd.Semantics.Scanning

/-! Boxes: a size, a kind of four letters and a body, one after the other.

The size counts the whole box. Where it is one, the size proper follows the kind in eight bytes,
and where it is zero the box goes on to the end of what holds it. The body of a box may hold
boxes again. -/

set_option autoImplicit false

namespace Stemd.Semantics.Boxes

open Framing Scanning

structure Box where
  kind : Bytes
  body : Bytes
  deriving DecidableEq

/-- A box with a header of `header` bytes and `size` bytes in all, and what comes after it. -/
def cut (header size : Nat) (bytes : Bytes) : Option (Box × Bytes) :=
  if header ≤ size ∧ size ≤ bytes.length then
    some (⟨(bytes.drop 4).take 4, (bytes.take size).drop header⟩, bytes.drop size)
  else none

/-- The box in front, if what it states of itself is there. -/
def front (bytes : Bytes) : Option (Box × Bytes) :=
  if bytes.length < 8 then none
  else match bigEndian (bytes.take 4) with
    | 0 => cut 8 bytes.length bytes
    | 1 =>
      if bytes.length < 16 then none
      else cut 16 (bigEndian ((bytes.drop 8).take 8)) bytes
    | size => cut 8 size bytes

/-- Four bytes, a kind of four letters, perhaps eight bytes more, and the body. -/
def Laid (bytes : Bytes) (box : Box) (rest : Bytes) : Prop :=
  ∃ size extended, bytes = size ++ box.kind ++ extended ++ box.body ++ rest ∧
    size.length = 4 ∧ box.kind.length = 4 ∧ (extended.length = 0 ∨ extended.length = 8)

variable {bytes rest : Bytes} {box : Box}

theorem cut_laid {header size : Nat} (head : header = 8 ∨ header = 16)
    (there : cut header size bytes = some (box, rest)) : Laid bytes box rest := by
  unfold cut at there
  split at there
  · rename_i held
    obtain ⟨rfl, rfl⟩ := Prod.mk.inj (Option.some.inj there)
    refine ⟨bytes.take 4, (bytes.drop 8).take (header - 8), ?_, ?_, ?_, ?_⟩
    -- The parts put side by side again, from the last one to the first.
    · have body : (bytes.take size).drop header ++ bytes.drop size = bytes.drop header := by
        rw [← List.drop_append_of_le_length (by rw [List.length_take]; omega),
          List.take_append_drop]
      have extended : (bytes.drop 8).take (header - 8) ++ bytes.drop header = bytes.drop 8 := by
        rw [show header = 8 + (header - 8) by omega, Nat.add_sub_cancel_left, ← List.drop_drop,
          List.take_append_drop]
      have kind : (bytes.drop 4).take 4 ++ bytes.drop 8 = bytes.drop 4 := by
        rw [show (8 : Nat) = 4 + 4 from rfl, ← List.drop_drop, List.take_append_drop]
      simp only [List.append_assoc]
      rw [body, extended, kind, List.take_append_drop]
    · rw [List.length_take]
      omega
    · simp only [List.length_take, List.length_drop]
      omega
    · simp only [List.length_take, List.length_drop]
      omega
  · cases there

theorem front_laid (there : front bytes = some (box, rest)) : Laid bytes box rest := by
  unfold front at there
  split at there
  · cases there
  · split at there
    · exact cut_laid (.inl rfl) there
    · split at there
      · cases there
      · exact cut_laid (.inr rfl) there
    · exact cut_laid (.inl rfl) there

theorem Laid.shorter (laid : Laid bytes box rest) : rest.length < bytes.length := by
  obtain ⟨size, extended, rfl, four, -, -⟩ := laid
  simp only [List.length_append]
  omega

/-- The boxes that follow each other, as far as they are whole. -/
def boxes (bytes : Bytes) : List Box :=
  match _ : front bytes with
  | none => []
  | some (box, rest) => box :: boxes rest
  termination_by bytes.length
  decreasing_by exact (front_laid ‹_›).shorter

/-- The bodies that a path of kinds leads to. -/
def nested : List Bytes → Bytes → List Bytes
  | [], bytes => [bytes]
  | kind :: path, bytes =>
    ((boxes bytes).filter (·.kind = kind)).flatMap fun box => nested path box.body

theorem boxes_none (missing : front bytes = none) : boxes bytes = [] := by
  rw [boxes]
  split
  · rfl
  · rename_i there
    rw [missing] at there
    cases there

theorem boxes_some (there : front bytes = some (box, rest)) : boxes bytes = box :: boxes rest := by
  rw [boxes]
  split
  · rename_i missing
    rw [there] at missing
    cases missing
  · rename_i other
    rw [there] at other
    cases other
    rfl

example : boxes [0, 0, 0, 9, 1, 2, 3, 4, 7, 0, 0, 0, 0, 5, 6, 7, 8, 9, 9] =
    [⟨[1, 2, 3, 4], [7]⟩, ⟨[5, 6, 7, 8], [9, 9]⟩] := by
  rw [boxes_some (by rfl), boxes_some (by rfl), boxes_none (by rfl)]
  rfl

theorem boxes_laid (there : box ∈ boxes bytes) :
    ∃ before tail rest, bytes = before ++ tail ∧ Laid tail box rest := by
  induction bytes using boxes.induct with
  | case1 bytes missing =>
    rw [boxes_none missing] at there
    cases there
  | case2 bytes first after leading ih =>
    rw [boxes_some leading] at there
    rcases List.mem_cons.mp there with rfl | later
    · exact ⟨[], bytes, after, rfl, front_laid leading⟩
    · obtain ⟨before, tail, rest, split, laid⟩ := ih later
      obtain ⟨size, extended, whole, -⟩ := front_laid leading
      exact ⟨size ++ first.kind ++ extended ++ first.body ++ before, tail, rest,
        by rw [whole, split]; simp only [List.append_assoc], laid⟩

/-- A body that a path leads to stands in the buffer right behind its kind, or eight bytes
further on. -/
theorem nested_laid {path : List Bytes} {kind body : Bytes}
    (there : body ∈ nested (path ++ [kind]) bytes) :
    ∃ before extended after, bytes = before ++ kind ++ extended ++ body ++ after ∧
      (extended.length = 0 ∨ extended.length = 8) := by
  induction path generalizing bytes with
  | nil =>
    simp only [List.nil_append, nested, List.mem_flatMap, List.mem_filter,
      decide_eq_true_eq, List.mem_singleton] at there
    obtain ⟨box, ⟨held, rfl⟩, rfl⟩ := there
    obtain ⟨before, tail, rest, rfl, size, extended, rfl, -, -, more⟩ := boxes_laid held
    exact ⟨before ++ size, extended, rest, by simp only [List.append_assoc], more⟩
  | cons outer path ih =>
    simp only [List.cons_append, nested, List.mem_flatMap, List.mem_filter,
      decide_eq_true_eq] at there
    obtain ⟨box, ⟨held, -⟩, inner⟩ := there
    obtain ⟨before, extended, after, body, more⟩ := ih inner
    obtain ⟨front, tail, rest, rfl, size, wide, rfl, -, -, -⟩ := boxes_laid held
    exact ⟨front ++ size ++ box.kind ++ wide ++ before, extended, after ++ rest,
      by rw [body]; simp only [List.append_assoc], more⟩

end Stemd.Semantics.Boxes
