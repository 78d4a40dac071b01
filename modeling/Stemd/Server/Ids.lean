import Stemd.Models.Identity
import Stemd.Server.Jobs

/-! Ids that a client keeps as it is given them.

A client copies an id into a fixed buffer and rewrites what is outside a conservative
character set, so an id that is to stay itself is short and made of that set alone. -/

set_option autoImplicit false

namespace Stemd.Server

open Stemd.Models
open Stemd.Semantics.Framing

/-- Every character of `id` survives a client round trip, and all of it fits. -/
def isPortableId (id : String) : Bool := id.toList.all isPortable && (utf8 id).length ≤ maxId

def isHexDigit (c : Char) : Bool :=
  c.isDigit || ('a' ≤ c && c ≤ 'f') || ('A' ≤ c && c ≤ 'F')

def Portable (text : String) : Prop := ∀ c ∈ text.toList, isPortable c = true

instance (text : String) : Decidable (Portable text) := List.decidableBAll _ _

theorem isAlphanum_iff (c : Char) : c.isAlphanum = true ↔
    (65 ≤ c.val.toNat ∧ c.val.toNat ≤ 90) ∨ (97 ≤ c.val.toNat ∧ c.val.toNat ≤ 122) ∨
      (48 ≤ c.val.toNat ∧ c.val.toNat ≤ 57) := by
  delta Char.isAlphanum Char.isAlpha Char.isUpper Char.isLower Char.isDigit
  simp only [Bool.or_eq_true, Bool.and_eq_true, decide_eq_true_eq, UInt32.le_iff_toNat_le,
    ge_iff_le]
  exact or_assoc

theorem isPortable_of_alphanum {c : Char} (alphanumeric : c.isAlphanum = true) :
    isPortable c = true := by
  simp [isPortable, alphanumeric]

theorem isPortable_of_hexDigit {c : Char} (hex : isHexDigit c = true) : isPortable c = true := by
  apply isPortable_of_alphanum
  simp only [isHexDigit, Char.isDigit, Char.le_def, Bool.or_eq_true, Bool.and_eq_true,
    decide_eq_true_eq, UInt32.le_iff_toNat_le, ge_iff_le] at hex
  change ((48 ≤ c.val.toNat ∧ c.val.toNat ≤ 57) ∨ (97 ≤ c.val.toNat ∧ c.val.toNat ≤ 102)) ∨
    (65 ≤ c.val.toNat ∧ c.val.toNat ≤ 70) at hex
  rw [isAlphanum_iff]
  omega

theorem Portable.plain {text : String} (kept : Portable text) : Plain text := by
  intro c member
  have range : 0 < c.val.toNat ∧ c.val.toNat ≤ 127 := by
    have here := kept c member
    simp only [isPortable, Bool.or_eq_true, decide_eq_true_eq, isAlphanum_iff] at here
    rcases here with ((alphanumeric | rfl) | rfl) | rfl
    · omega
    · decide
    · decide
    · decide
  refine ⟨fun zero => ?_, UInt32.le_iff_toNat_le.mpr range.2⟩
  rw [zero] at range
  exact absurd range.1 (by decide)

theorem Portable.utf8_length {text : String} (kept : Portable text) :
    (utf8 text).length = text.length := by
  rw [utf8_of_plain kept.plain, List.length_map, String.length_toList]

theorem Portable.append {left right : String} (first : Portable left) (second : Portable right) :
    Portable (left ++ right) := by
  intro c member
  rw [String.toList_append] at member
  exact (List.mem_append.mp member).elim (first c) (second c)

theorem Portable.unchanged {text : String} (kept : Portable text) : portable text = text := by
  apply String.toList_inj.mp
  rw [portable, String.toList_ofList]
  conv_rhs => rw [← List.map_id text.toList]
  apply List.map_congr_left
  intro c member
  exact if_pos (kept c member)

theorem portable_portable (name : String) : Portable (portable name) := by
  intro c member
  rw [portable, String.toList_ofList] at member
  obtain ⟨original, -, rfl⟩ := List.mem_map.mp member
  split
  · assumption
  · rfl

theorem Portable.ofList_take {text : String} (kept : Portable text) (n : Nat) :
    Portable (String.ofList (text.toList.take n)) := by
  intro c member
  rw [String.toList_ofList] at member
  exact kept c (List.mem_of_mem_take member)

theorem portable_hyphen : Portable "-" := by
  decide

theorem isPortableId_iff {id : String} (kept : Portable id) :
    isPortableId id = true ↔ id.length ≤ maxId := by
  simp only [isPortableId, kept.utf8_length, Bool.and_eq_true, decide_eq_true_eq]
  exact and_iff_right (List.all_eq_true.mpr kept)

structure Published (id : String) : Prop where
  portable : isPortableId id = true
  notHere : id ≠ "."
  notAbove : id ≠ ".."
  unchanged : Models.portable id = id

/-- An id with a hyphen in it is no way to a directory. -/
theorem Published.of_hyphen {id : String} (kept : Portable id) (short : id.length ≤ maxId)
    (hyphen : '-' ∈ id.toList) : Published id := by
  refine ⟨(isPortableId_iff kept).mpr short, ?_, ?_, kept.unchanged⟩
  · rintro rfl
    exact absurd hyphen (by decide)
  · rintro rfl
    exact absurd hyphen (by decide)

theorem portable_lowerHex (digest : Bytes) : Portable (lowerHex digest) := by
  have digits : ∀ n < 16, isPortable n.digitChar = true := by decide
  intro c member
  rw [lowerHex, String.toList_ofList] at member
  obtain ⟨b, -, here⟩ := List.mem_flatMap.mp member
  have byte := b.toNat_lt
  rcases List.mem_pair.mp here with rfl | rfl
  · exact digits _ (by omega)
  · exact digits _ (by omega)

theorem tagged_published (sha256 : Bytes → Bytes) {label : String} (kept : Portable label)
    (short : (utf8 label).length ≤ 21) (name : String) : Published (tagged sha256 label name) := by
  rw [kept.utf8_length] at short
  have head := (portable_portable name).ofList_take (maxId - (label.length + 2 + digestChars))
  have digest := (portable_lowerHex (sha256 (utf8 name))).ofList_take digestChars
  have whole : tagged sha256 label name = label ++ "-" ++
      String.ofList ((portable name).toList.take (maxId - (label.length + 2 + digestChars))) ++
        "-" ++ shortDigest sha256 name := by
    simp only [tagged, kept.utf8_length]
  rw [whole]
  apply Published.of_hyphen
  · exact (((kept.append portable_hyphen).append head).append portable_hyphen).append digest
  · have room : (String.ofList ((portable name).toList.take
        (maxId - (label.length + 2 + digestChars)))).length ≤
          maxId - (label.length + 2 + digestChars) := by
      rw [String.length_ofList]
      exact List.length_take_le _ _
    have eight : (shortDigest sha256 name).length ≤ digestChars := by
      rw [shortDigest, String.length_ofList]
      exact List.length_take_le _ _
    have one : "-".length = 1 := rfl
    simp only [String.length_append, one]
    -- The head gives way to the label; a label of 21 leaves it nothing.
    simp only [maxId, digestChars] at room eight ⊢
    omega
  · simp

theorem toString_length_le {attempt : Nat} (bound : attempt < 10 ^ 18) :
    (toString attempt).length ≤ 18 := by
  rw [Nat.toString_eq_repr]
  exact (Nat.length_repr_le_iff (by decide)).mpr bound

theorem portable_toString (n : Nat) : Portable (toString n) := by
  intro c member
  have digit : c.isDigit := by
    rw [Nat.toString_eq_repr, Nat.repr_eq_ofList_toDigits, String.toList_ofList] at member
    exact Nat.isDigit_of_mem_toDigits (by decide) (by decide) member
  apply isPortable_of_alphanum
  rw [Char.isAlphanum, digit, Bool.or_true]

theorem jobId_published {key : String} (hex : ∀ c ∈ key.toList, isHexDigit c = true)
    {attempt : Nat} (bound : attempt < 10 ^ 18) : Published (jobId key attempt) := by
  have kept : Portable key := fun c member => isPortable_of_hexDigit (hex c member)
  apply Published.of_hyphen
  · exact ((kept.ofList_take shortKey).append portable_hyphen).append (portable_toString attempt)
  · have leading : (short key).length ≤ shortKey := by
      rw [short, String.length_ofList]
      exact List.length_take_le _ _
    have counted := toString_length_le bound
    have one : "-".length = 1 := rfl
    simp only [jobId, String.length_append, one]
    simp only [maxId, shortKey] at leading ⊢
    omega
  · simp [jobId]

/-- Whatever an artefact is called, the id it is published under is one that clients keep, and
so is the id of every job; and the ids of two attempts are two. -/
theorem published_ids_are_kept (sha256 : Bytes → Bytes) :
    (∀ label name : String, Portable label → (utf8 label).length ≤ 21 →
      Published (tagged sha256 label name)) ∧
    (∀ (key : String) (attempt : Nat), (∀ c ∈ key.toList, isHexDigit c = true) →
      12 ≤ key.length → attempt < 10 ^ 18 → Published (jobId key attempt)) ∧
    ∀ (key key' : String) (attempt attempt' : Nat),
      jobId key attempt = jobId key' attempt' → attempt = attempt' :=
  ⟨fun _ name kept short => tagged_published sha256 kept short name,
    fun _ _ hex _ bound => jobId_published hex bound, fun _ _ _ _ same => jobId_attempt same⟩

def recorded (bytes : Bytes) : Bytes :=
  if bytes = utf8 "../../etc/passwd" then
    [0x37, 0x54, 0xd6, 0xcb, 0x3a, 0x38, 0xe1, 0x18, 0x5e, 0x5b, 0x38,
    0x2d, 0x5f, 0x3e, 0xf3, 0xf1, 0x18, 0xaf, 0x75, 0xbf, 0x4b, 0xf0,
    0x25, 0x4d, 0x1f, 0xdb, 0x84, 0x37, 0xf5, 0x14, 0x23, 0xe0]
  else []

theorem climbing_name_is_kept :
    Published (tagged recorded "custom" "../../etc/passwd") ∧
      Published (jobId "9f86d081884c7d65" 3) := by
  obtain ⟨artefacts, jobs, -⟩ := published_ids_are_kept recorded
  constructor
  · exact artefacts "custom" _ (by decide) (by decide)
  · exact jobs _ 3 (List.all_eq_true.mp (by decide)) (by decide) (by decide)

example : tagged recorded "custom" "../../etc/passwd" = "custom-.._.._etc_passw-3754d6cb" := by
  decide +kernel

end Stemd.Server
