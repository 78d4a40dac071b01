import Mathlib.Algebra.Order.BigOperators.Group.List
import Mathlib.Algebra.Order.Group.Nat
import Mathlib.Data.List.Basic
import Mathlib.Data.List.Find
import Stemd.Semantics.Framing

/-! Files in directories.

A directory is known by the files in it: an empty one holds nothing and is not kept
track of. What is read, and what space is used, is stated for each operation. -/

set_option autoImplicit false

namespace Stemd.Semantics

open Framing

structure File where
  name : String
  content : Bytes
  deriving DecidableEq

structure Disk (Dir : Type) where
  files : List (Dir × File)
  deriving DecidableEq

namespace Disk

variable {Dir : Type} [DecidableEq Dir]

def empty : Disk Dir := ⟨[]⟩

def has (disk : Disk Dir) (dir : Dir) : Bool := disk.files.any fun file => file.1 = dir

def read (disk : Disk Dir) (dir : Dir) (name : String) : Option Bytes :=
  (disk.files.find? fun file => file.1 = dir ∧ file.2.name = name).map fun file => file.2.content

def unlink (disk : Disk Dir) (dir : Dir) (name : String) : Disk Dir :=
  ⟨disk.files.filter fun file => ¬ (file.1 = dir ∧ file.2.name = name)⟩

def write (disk : Disk Dir) (dir : Dir) (file : File) : Disk Dir :=
  ⟨(dir, file) :: (disk.unlink dir file.name).files⟩

/-- Give a file of a directory another name there, in place of one that had it. -/
def move (disk : Disk Dir) (dir : Dir) (name name' : String) : Disk Dir :=
  match disk.read dir name with
  | some content => (disk.unlink dir name).write dir ⟨name', content⟩
  | none => disk

def rename (disk : Disk Dir) (source target : Dir) : Disk Dir :=
  ⟨disk.files.map fun file => if file.1 = source then (target, file.2) else file⟩

def usage (disk : Disk Dir) : Nat := (disk.files.map fun file => file.2.content.length).sum

def usageOf (disk : Disk Dir) (dir : Dir) : Nat :=
  (disk.files.map fun file => if file.1 = dir then file.2.content.length else 0).sum

variable {disk : Disk Dir} {dir other source target : Dir} {name name' : String} {file : File}

theorem has_eq_false : disk.has dir = false ↔ ∀ file ∈ disk.files, file.1 ≠ dir := by
  simp [has]

theorem read_unlink : (disk.unlink dir name).read other name' =
    if dir = other ∧ name = name' then none else disk.read other name' := by
  simp only [read, unlink, List.find?_filter]
  split
  · rename_i same
    obtain ⟨rfl, rfl⟩ := same
    rw [Option.map_eq_none_iff, List.find?_eq_none]
    intro file member found
    simp only [decide_eq_true_eq] at found
    exact found.1 found.2
  · rename_i apart
    congr 1
    refine List.find?_congr fun file member => ?_
    rw [decide_eq_decide]
    simp only [decide_eq_true_eq]
    refine and_iff_right_of_imp ?_
    rintro ⟨here, named⟩ ⟨there, named'⟩
    exact apart ⟨there.symm.trans here, named'.symm.trans named⟩

theorem read_write : (disk.write dir file).read other name' =
    if dir = other ∧ file.name = name' then some file.content else disk.read other name' := by
  by_cases same : dir = other ∧ file.name = name'
  · simp [read, write, same.1, same.2]
  · have rest : (disk.unlink dir file.name).read other name' = _ := read_unlink
    rw [if_neg same] at rest ⊢
    rw [← rest]
    simp [read, write, same]

theorem read_move_target {content : Bytes} (found : disk.read dir name = some content) :
    (disk.move dir name name').read dir name' = some content := by
  simp only [move, found, read_write, and_self, if_true]

theorem read_move_other {other' : String} (source : ¬ (dir = other ∧ name = other'))
    (target : ¬ (dir = other ∧ name' = other')) :
    (disk.move dir name name').read other other' = disk.read other other' := by
  unfold move
  split
  · simp only [read_write, if_neg target, read_unlink, if_neg source]
  · rfl

theorem read_rename (empty : disk.has target = false) :
    (disk.rename source target).read dir name =
      if dir = target then disk.read source name
      else if dir = source then none else disk.read dir name := by
  have free := has_eq_false.mp empty
  simp only [read, rename, List.find?_map, Option.map_map]
  have same : ((fun file : Dir × File => file.2.content) ∘
      fun file => if file.1 = source then (target, file.2) else file) =
        fun file => file.2.content := by
    funext file
    dsimp only [Function.comp]
    split <;> rfl
  rw [same]
  split
  · rename_i moved
    congr 1
    refine List.find?_congr fun file member => ?_
    subst moved
    by_cases there : file.1 = source
    · simp [there]
    · simp [there, free file member]
  · rename_i other
    split
    · rename_i left
      rw [Option.map_eq_none_iff, List.find?_eq_none]
      intro file member
      subst left
      by_cases there : file.1 = dir
      · simp [there, Ne.symm other]
      · simp [there]
    · rename_i other'
      congr 1
      refine List.find?_congr fun file member => ?_
      by_cases there : file.1 = source
      · simp [there, Ne.symm other, Ne.symm other']
      · simp [there]

theorem has_unlink (empty : disk.has other = false) : (disk.unlink dir name).has other = false :=
  has_eq_false.mpr fun file member => has_eq_false.mp empty file (List.mem_filter.mp member).1

theorem has_write (apart : other ≠ dir) (empty : disk.has other = false) :
    (disk.write dir file).has other = false := by
  refine has_eq_false.mpr fun written member => ?_
  rcases List.mem_cons.mp member with rfl | old
  · exact Ne.symm apart
  · exact has_eq_false.mp empty written (List.mem_filter.mp old).1

theorem has_rename_other (apart : other ≠ target) (empty : disk.has other = false) :
    (disk.rename source target).has other = false := by
  refine has_eq_false.mpr fun file member => ?_
  obtain ⟨old, inside, rfl⟩ := List.mem_map.mp member
  split
  · exact Ne.symm apart
  · exact has_eq_false.mp empty old inside

theorem usageOf_eq_zero (empty : disk.has dir = false) : disk.usageOf dir = 0 := by
  refine List.sum_eq_zero fun bytes member => ?_
  obtain ⟨file, inside, rfl⟩ := List.mem_map.mp member
  exact if_neg (has_eq_false.mp empty file inside)

theorem content_eq_nil (unused : disk.usageOf dir = 0) {held : Dir × File}
    (member : held ∈ disk.files) (here : held.1 = dir) : held.2.content = [] := by
  have mine := List.sum_eq_zero_iff_forall_eq_nat.mp unused _ (List.mem_map_of_mem member)
  rw [if_pos here] at mine
  exact List.length_eq_zero_iff.mp mine

theorem usageOf_unlink_le : (disk.unlink dir name).usageOf other ≤ disk.usageOf other :=
  ((List.filter_sublist).map _).sum_le_sum fun _ _ => Nat.zero_le _

theorem usageOf_write_le :
    (disk.write dir file).usageOf other ≤
      disk.usageOf other + if dir = other then file.content.length else 0 := by
  have rest : (disk.unlink dir file.name).usageOf other ≤ disk.usageOf other := usageOf_unlink_le
  simp only [usageOf, write, List.map_cons, List.sum_cons] at rest ⊢
  omega

theorem usageOf_rename_target (empty : disk.has target = false) :
    (disk.rename source target).usageOf target = disk.usageOf source := by
  have free := has_eq_false.mp empty
  simp only [usageOf, rename, List.map_map]
  congr 1
  refine List.map_congr_left fun file member => ?_
  by_cases there : file.1 = source
  · simp [there]
  · simp [there, free file member]

theorem usageOf_rename_other (apart : other ≠ target) :
    (disk.rename source target).usageOf other ≤ disk.usageOf other := by
  simp only [usageOf, rename, List.map_map]
  refine List.sum_le_sum fun file member => ?_
  by_cases there : file.1 = source
  · simp [there, Ne.symm apart]
  · simp [there]

theorem usage_le (dirs : List Dir)
    (held : ∀ file ∈ disk.files, file.2.content ≠ [] → file.1 ∈ dirs) :
    disk.usage ≤ (dirs.map disk.usageOf).sum := by
  obtain ⟨files⟩ := disk
  induction files with
  | nil => exact Nat.zero_le _
  | cons file files ih =>
      have rest := ih fun other member => held other (List.mem_cons_of_mem _ member)
      have mine : file.2.content.length ≤
          (dirs.map fun dir => if file.1 = dir then file.2.content.length else 0).sum := by
        by_cases none : file.2.content = []
        · simp [none]
        · refine List.single_le_sum (fun _ _ => Nat.zero_le _) _ (List.mem_map.mpr ?_)
          exact ⟨file.1, held file List.mem_cons_self none, if_pos rfl⟩
      have split : (dirs.map (Disk.mk (file :: files)).usageOf).sum =
          (dirs.map fun dir => if file.1 = dir then file.2.content.length else 0).sum +
            (dirs.map (Disk.mk files).usageOf).sum := by
        rw [← List.sum_map_add]
        rfl
      simp only [usage, List.map_cons, List.sum_cons] at rest ⊢
      omega

end Disk

end Stemd.Semantics
