import Mathlib.Algebra.Ring.Nat
import Mathlib.Data.List.Basic

/-! Trailing fields after an unframed payload.

The payload in front has no length of its own, so a stream can only be read from
the right. That is unambiguous for fields that do not hold the mark that leads them, and
for length-prefixed fields that hold no zero byte and are shorter than `2 ^ 24`: the top
byte of their little-endian length is then the last zero byte of the stream. -/

set_option autoImplicit false

namespace Stemd.Semantics.Framing

abbrev Bytes := List UInt8

def littleEndian32 (n : Nat) : Bytes :=
  [UInt8.ofNat n, UInt8.ofNat (n / 2 ^ 8), UInt8.ofNat (n / 2 ^ 16), UInt8.ofNat (n / 2 ^ 24)]

/-- A length that does not fit 32 bits is recorded as the largest that does. -/
def field (content : Bytes) : Bytes :=
  littleEndian32 (if content.length < 2 ^ 32 then content.length else 2 ^ 32 - 1) ++ content

def fields (contents : List Bytes) : Bytes := contents.flatMap field

def NulFree (content : Bytes) : Prop := (0 : UInt8) ∉ content

structure Framed (content : Bytes) : Prop where
  nulFree : NulFree content
  short : content.length < 2 ^ 24

theorem Framed.field_eq {content : Bytes} (framed : Framed content) :
    ∃ low : Bytes, low.length = 3 ∧ field content = low ++ 0 :: content := by
  have bound := framed.short
  have top : content.length / 2 ^ 24 = 0 := Nat.div_eq_of_lt bound
  refine ⟨[UInt8.ofNat content.length, UInt8.ofNat (content.length / 2 ^ 8),
    UInt8.ofNat (content.length / 2 ^ 16)], rfl, ?_⟩
  simp only [field, littleEndian32, if_pos (show content.length < 2 ^ 32 by omega), top,
    List.cons_append, List.nil_append]
  rfl

theorem split_at_last {α : Type} {mark : α} {front front' back back' : List α}
    (free : mark ∉ back) (free' : mark ∉ back')
    (same : front ++ mark :: back = front' ++ mark :: back') : front = front' ∧ back = back' := by
  rcases List.append_eq_append_iff.mp same with ⟨extra, left, right⟩ | ⟨extra, left, right⟩
  · cases extra with
    | nil => exact ⟨by simpa using left.symm, (List.cons.inj right).2⟩
    | cons head tail =>
        have found : mark ∈ back := by
          rw [(List.cons.inj right).2]
          simp
        exact absurd found free
  · cases extra with
    | nil => exact ⟨by simpa using left, ((List.cons.inj right).2).symm⟩
    | cons head tail =>
        have found : mark ∈ back' := by
          rw [(List.cons.inj right).2]
          simp
        exact absurd found free'

def marked {α : Type} (mark : α) (contents : List (List α)) : List α :=
  contents.flatMap (mark :: ·)

/-- Fields that do not hold the mark can be read back from the right, whatever the text in
front of them imitates. -/
theorem marked_cancel {α : Type} {mark : α} {contents contents' : List (List α)}
    {front front' : List α} (count : contents.length = contents'.length)
    (free : ∀ content ∈ contents, mark ∉ content) (free' : ∀ content ∈ contents', mark ∉ content)
    (same : front ++ marked mark contents = front' ++ marked mark contents') :
    front = front' ∧ contents = contents' := by
  induction contents generalizing contents' front front' with
  | nil =>
      cases contents' with
      | nil => exact ⟨by simpa [marked] using same, rfl⟩
      | cons _ _ => simp at count
  | cons content rest ih =>
      cases contents' with
      | nil => simp at count
      | cons content' rest' =>
          simp only [marked, List.flatMap_cons, ← List.append_assoc] at same
          obtain ⟨fronts, rests⟩ := ih (by simpa using count)
            (fun c member => free c (List.mem_cons_of_mem _ member))
            (fun c member => free' c (List.mem_cons_of_mem _ member)) same
          obtain ⟨text, head⟩ := split_at_last (free _ List.mem_cons_self)
            (free' _ List.mem_cons_self) fronts
          exact ⟨text, by rw [head, rests]⟩

theorem field_cancel {front front' content content' : Bytes} (framed : Framed content)
    (framed' : Framed content') (same : front ++ field content = front' ++ field content') :
    front = front' ∧ content = content' := by
  obtain ⟨low, length, eq⟩ := framed.field_eq
  obtain ⟨low', length', eq'⟩ := framed'.field_eq
  rw [eq, eq', ← List.append_assoc, ← List.append_assoc] at same
  obtain ⟨fronts, contents⟩ := split_at_last framed.nulFree framed'.nulFree same
  exact ⟨(List.append_inj' fronts (length.trans length'.symm)).1, contents⟩

theorem fields_cancel {contents contents' : List Bytes} {front front' : Bytes}
    (count : contents.length = contents'.length)
    (framed : ∀ content ∈ contents, Framed content)
    (framed' : ∀ content ∈ contents', Framed content)
    (same : front ++ fields contents = front' ++ fields contents') :
    front = front' ∧ contents = contents' := by
  induction contents generalizing contents' front front' with
  | nil =>
      cases contents' with
      | nil => exact ⟨by simpa [fields] using same, rfl⟩
      | cons _ _ => simp at count
  | cons content rest ih =>
      cases contents' with
      | nil => simp at count
      | cons content' rest' =>
          simp only [fields, List.flatMap_cons, ← List.append_assoc] at same
          obtain ⟨fronts, rests⟩ := ih (by simpa using count)
            (fun c member => framed c (List.mem_cons_of_mem _ member))
            (fun c member => framed' c (List.mem_cons_of_mem _ member)) same
          obtain ⟨payload, head⟩ := field_cancel (framed _ List.mem_cons_self)
            (framed' _ List.mem_cons_self) fronts
          exact ⟨payload, by rw [head, rests]⟩

end Stemd.Semantics.Framing
