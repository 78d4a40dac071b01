import Mathlib.Data.List.Basic
import Mathlib.Logic.Function.Basic
import Stemd.Semantics.Framing

/-! Paths by their components, and what a file system keeps at the places they lead to.

Names are bytes. Where one is made into a text, what is not well-formed UTF-8 is replaced, so
that two names can give one text. -/

set_option autoImplicit false

namespace Stemd.Semantics

open Framing

def dot : UInt8 := 46

def slash : UInt8 := 47

def replacement : Bytes := [0xef, 0xbf, 0xbd]

/-- How many bytes follow a leading byte, and the range that the first of them is in. -/
def following (lead : UInt8) : Option (Nat × UInt8 × UInt8) :=
  if 0xc2 ≤ lead ∧ lead ≤ 0xdf then some (1, 0x80, 0xbf)
  else if lead = 0xe0 then some (2, 0xa0, 0xbf)
  else if lead = 0xed then some (2, 0x80, 0x9f)
  else if 0xe1 ≤ lead ∧ lead ≤ 0xef then some (2, 0x80, 0xbf)
  else if lead = 0xf0 then some (3, 0x90, 0xbf)
  else if 0xf1 ≤ lead ∧ lead ≤ 0xf3 then some (3, 0x80, 0xbf)
  else if lead = 0xf4 then some (3, 0x80, 0x8f)
  else none

def continued : Nat → UInt8 → UInt8 → Bytes → Nat
  | n + 1, low, high, byte :: rest =>
    if low ≤ byte ∧ byte ≤ high then continued n 0x80 0xbf rest + 1 else 0
  | _, _, _, _ => 0

/-- `from_utf8_lossy`, as bytes: a sequence cut short is replaced by one character. -/
def lossy : Bytes → Bytes
  | [] => []
  | lead :: rest =>
    if lead < 0x80 then lead :: lossy rest
    else match following lead with
      | none => replacement ++ lossy rest
      | some (n, low, high) =>
        let held := continued n low high rest
        (if held = n then lead :: rest.take held else replacement) ++ lossy (rest.drop held)
  termination_by bytes => bytes.length
  decreasing_by all_goals simp only [List.length_cons, List.length_drop]; omega

def Ascii (bytes : Bytes) : Prop := ∀ byte ∈ bytes, byte < 0x80

instance (bytes : Bytes) : Decidable (Ascii bytes) := List.decidableBAll _ _

theorem following_low {lead low high : UInt8} {n : Nat}
    (called : following lead = some (n, low, high)) : 0x80 ≤ low := by
  unfold following at called
  split_ifs at called <;> cases called <;> decide

theorem continued_append {text : Bytes} (ascii : Ascii text) (n : Nat) {low : UInt8}
    (bound : 0x80 ≤ low) (high : UInt8) (bytes : Bytes) :
    continued n low high (bytes ++ text) = continued n low high bytes := by
  induction n generalizing low high bytes with
  | zero => simp only [continued]
  | succ n ih =>
      cases bytes with
      | cons byte rest => simp only [List.cons_append, continued, ih (UInt8.le_refl _)]
      | nil =>
          cases text with
          | nil => rfl
          | cons first rest =>
              -- Nothing that continues a character is below 0x80.
              have apart : ¬ (low ≤ first ∧ first ≤ high) := fun within =>
                absurd (ascii first List.mem_cons_self)
                  (UInt8.not_lt.mpr (UInt8.le_trans bound within.1))
              simp only [List.nil_append, continued, if_neg apart]

theorem continued_le (n : Nat) (low high : UInt8) (bytes : Bytes) :
    continued n low high bytes ≤ bytes.length := by
  induction n generalizing low high bytes with
  | zero => simp only [continued, Nat.zero_le]
  | succ n ih =>
      cases bytes with
      | nil => simp only [continued, Nat.zero_le]
      | cons byte rest =>
          simp only [continued]
          split
          · exact Nat.succ_le_succ (ih _ _ rest)
          · exact Nat.zero_le _

theorem lossy_ascii {text : Bytes} (ascii : Ascii text) : lossy text = text := by
  induction text with
  | nil => rw [lossy]
  | cons byte rest ih =>
      rw [lossy, if_pos (ascii byte List.mem_cons_self),
        ih fun other member => ascii other (List.mem_cons_of_mem _ member)]

theorem lossy_append (bytes : Bytes) {text : Bytes} (ascii : Ascii text) :
    lossy (bytes ++ text) = lossy bytes ++ text := by
  induction bytes using lossy.induct with
  | case1 => simp only [lossy, List.nil_append, lossy_ascii ascii]
  | case2 lead rest plain ih => simp only [List.cons_append, lossy, if_pos plain, ih]
  | case3 lead rest marked unknown ih =>
      simp only [List.cons_append, lossy, if_neg marked, unknown, ih, List.append_assoc]
  -- A character cut short is cut short as well with the text behind it.
  | case4 lead rest marked n low high called held ih =>
      have bound := continued_le n low high rest
      have same := continued_append ascii n (following_low called) high rest
      simp only [held] at ih
      simp only [List.cons_append, lossy, if_neg marked, called, same,
        List.take_append_of_le_length bound, List.drop_append_of_le_length bound, ih,
        List.append_assoc]

theorem slash_lossy {bytes : Bytes} (named : slash ∉ bytes) : slash ∉ lossy bytes := by
  have apart : slash ∉ replacement := by decide
  induction bytes using lossy.induct with
  | case1 => simp only [lossy, List.not_mem_nil, not_false_eq_true]
  | case2 lead rest plain ih =>
      rw [List.mem_cons, not_or] at named
      rw [lossy, if_pos plain, List.mem_cons, not_or]
      exact ⟨named.1, ih named.2⟩
  | case3 lead rest marked unknown ih =>
      rw [List.mem_cons, not_or] at named
      simp only [lossy, if_neg marked, unknown, List.mem_append, not_or]
      exact ⟨apart, ih named.2⟩
  | case4 lead rest marked n low high called held ih =>
      rw [List.mem_cons, not_or] at named
      simp only [lossy, if_neg marked, called, List.mem_append, not_or]
      refine ⟨?_, ih fun member => named.2 (List.mem_of_mem_drop member)⟩
      split
      · rw [List.mem_cons, not_or]
        exact ⟨named.1, fun member => named.2 (List.mem_of_mem_take member)⟩
      · exact apart

theorem following_marked {bytes rest : Bytes} {held : Prop} [Decidable held] {lead : UInt8}
    (marked : ¬ lead < 0x80)
    (ascii : Ascii ((if held then lead :: bytes else replacement) ++ rest)) :
    False := by
  split at ascii
  · exact marked (ascii lead (by simp))
  · exact absurd (ascii 0xef (by simp [replacement])) (by decide)

theorem eq_of_lossy_ascii {bytes : Bytes} (ascii : Ascii (lossy bytes)) : lossy bytes = bytes := by
  induction bytes using lossy.induct with
  | case1 => rw [lossy]
  | case2 lead rest plain ih =>
      rw [lossy, if_pos plain] at ascii ⊢
      rw [ih fun byte member => ascii byte (List.mem_cons_of_mem _ member)]
  | case3 lead rest marked unknown ih =>
      simp only [lossy, if_neg marked, unknown] at ascii
      exact absurd (ascii 0xef (by simp [replacement])) (by decide)
  | case4 lead rest marked n low high called held ih =>
      simp only [lossy, if_neg marked, called] at ascii
      exact (following_marked marked ascii).elim

structure FileName where
  bytes : Bytes
  valid : bytes ≠ [] ∧ bytes ≠ [dot] ∧ bytes ≠ [dot, dot] ∧ slash ∉ bytes
  deriving DecidableEq

namespace FileName

/-- The bytes before the last dot, unless there is none or nothing before it. -/
def stem (name : FileName) : Bytes :=
  let before := (name.bytes.reverse.dropWhile (· ≠ dot)).drop 1
  if before = [] then name.bytes else before.reverse

theorem slash_stem (name : FileName) : slash ∉ name.stem := by
  rw [stem]
  split
  · exact name.valid.2.2.2
  · intro member
    rw [List.mem_reverse] at member
    have kept := (List.dropWhile_sublist _).subset (List.mem_of_mem_drop member)
    exact name.valid.2.2.2 (List.mem_reverse.mp kept)

def lossy (name : FileName) : FileName where
  bytes := Semantics.lossy name.bytes
  valid := by
    have same {text : Bytes} (ascii : Ascii text) (made : Semantics.lossy name.bytes = text) :
        name.bytes = text := (eq_of_lossy_ascii (made ▸ ascii)).symm.trans made
    exact ⟨fun made => name.valid.1 (same (by decide) made),
      fun made => name.valid.2.1 (same (by decide) made),
      fun made => name.valid.2.2.1 (same (by decide) made), slash_lossy name.valid.2.2.2⟩

theorem lossy_of_ascii {name : FileName} (ascii : Ascii name.bytes) : name.lossy = name := by
  obtain ⟨bytes, valid⟩ := name
  simp only [lossy, lossy_ascii ascii]

end FileName

inductive Component where
  | rootDir
  | curDir
  | parentDir
  | normal (name : FileName)
  deriving DecidableEq

structure PathBuf where
  components : List Component
  deriving DecidableEq

namespace PathBuf

def fileName (path : PathBuf) : Option FileName :=
  match path.components.getLast? with
  | some (.normal name) => some name
  | _ => none

def parent (path : PathBuf) : Option PathBuf :=
  match path.components.getLast? with
  | none | some .rootDir => none
  | some _ => some ⟨path.components.dropLast⟩

def fileStem (path : PathBuf) : Option Bytes := path.fileName.map FileName.stem

def join (path : PathBuf) (name : FileName) : PathBuf := ⟨path.components ++ [.normal name]⟩

@[simp] theorem fileName_join (path : PathBuf) (name : FileName) :
    (path.join name).fileName = some name := by
  simp [fileName, join]

end PathBuf

abbrev Location := List FileName

def Simple (bytes : Bytes) : Prop := ∀ byte ∈ bytes, byte < 0x80 ∧ ¬ (0x41 ≤ byte ∧ byte ≤ 0x5a)

instance (bytes : Bytes) : Decidable (Simple bytes) := List.decidableBAll _ _

theorem Simple.ascii {bytes : Bytes} (simple : Simple bytes) : Ascii bytes :=
  fun byte member => (simple byte member).1

/-- A file system as one process sees it. It need not tell all names apart, such as those that
differ in case: it spells those alike. -/
structure Volume where
  cwd : Location
  spelling : FileName → FileName
  simple : ∀ {name other : FileName}, Simple name.bytes → Simple other.bytes →
    spelling name = spelling other → name = other

namespace Volume

def enter (vol : Volume) (place : Location) : Component → Location
  | .rootDir => []
  | .curDir => place
  | .parentDir => place.dropLast
  | .normal name => place ++ [vol.spelling name]

def locate (vol : Volume) (path : PathBuf) : Location := path.components.foldl vol.enter vol.cwd

@[simp] theorem locate_join (vol : Volume) (path : PathBuf) (name : FileName) :
    vol.locate (path.join name) = vol.locate path ++ [vol.spelling name] := by
  simp [locate, PathBuf.join, enter]

end Volume

abbrev Files (C : Type) := Location → Option C

namespace Files

variable {C : Type}

def write (files : Files C) (place : Location) (content : C) : Files C :=
  Function.update files place (some content)

@[simp] theorem write_self (files : Files C) (place : Location) (content : C) :
    files.write place content place = some content := Function.update_self ..

theorem write_of_ne (files : Files C) {place other : Location} (content : C)
    (apart : other ≠ place) : files.write place content other = files other :=
  Function.update_of_ne apart ..

theorem isSome_write {files : Files C} {place other : Location} (content : C)
    (held : (files other).isSome) : (files.write place content other).isSome := by
  by_cases here : other = place
  · rw [here, write_self]
    rfl
  · rwa [write_of_ne files content here]

/-- `remove_dir_all`, which fails where it meets something it may not remove. -/
def removeDirAll (files : Files C) (dir : Location) (stays : Location → Bool) : Files C :=
  fun place => if dir <+: place ∧ place ≠ dir ∧ ¬ stays place then none else files place

theorem removeDirAll_of_not {files : Files C} {dir place : Location} {stays : Location → Bool}
    (outside : ¬ (dir <+: place ∧ place ≠ dir)) :
    files.removeDirAll dir stays place = files place :=
  if_neg fun inside => outside ⟨inside.1, inside.2.1⟩

end Files

end Stemd.Semantics
