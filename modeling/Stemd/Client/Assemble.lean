import Mathlib.Data.List.Nodup
import Stemd.Core.Exact
import Stemd.Core.Stems
import Stemd.Semantics.Fallible

/-! What the command-line client makes of the stems it downloads.

Each stem is brought back to its level and kept, and what is left of the mix is the derived part.
The stems are looked up by name to take them away, and so a name that comes twice is taken away
twice over. Sample arithmetic is exact; what the network and a FLAC decoder give is theirs. -/

set_option autoImplicit false

namespace Stemd.Client

open Stemd.Core Stemd.Semantics

abbrev Planar := List (List ℚ)

inductive Origin where
  | downloaded
  | rebuiltHere
  deriving DecidableEq, Repr

structure Part where
  origin : Origin
  name : String
  samples : Planar

structure StemRef where
  name : String
  url : String
  /-- Scale already applied to the samples. -/
  gain : ℚ

structure JobResult where
  sampleRate : UInt32
  format : String
  stems : List StemRef

/-- What the client is answered, and what it reads of a FLAC stem. -/
structure Wire (E : Type) where
  fetchStem : String → Except E (List UInt8)
  decodeFlac : List UInt8 → Except E Planar

def sample? (planar : Planar) (c i : Nat) : Option ℚ := planar[c]?.bind (·[i]?)

def sampleAt (planar : Planar) (c i : Nat) : ℚ := (sample? planar c i).getD 0

/-- `a - b`, tolerating a shorter `b`. -/
def subtract (a b : Planar) : Planar :=
  a.mapIdx fun c ch => ch.mapIdx fun i v => v - sampleAt b c i

/-- `1.0 / gain`, treating a nonsensical gain as unity. -/
def inverse (gain : ℚ) : ℚ := if 0 < gain then 1 / gain else 1

def rescale (data : Planar) (gain : ℚ) : Planar := data.map (·.map (· * inverse gain))

/-- Split an interleaved stereo payload into planes, undoing the transfer gain. -/
def deinterleave (raw : List UInt8) (f32Format : Bool) (gain : ℚ) : Planar :=
  let format := if f32Format then PcmFormat.f32le else .s16le
  (chunksExact format.bytesPerSample raw).zipIdx.foldl
    (fun out entry => out.modify (entry.2 % 2) (· ++ [decodeSample format entry.1 * inverse gain]))
    [[], []]

section

variable {E : Type}

def download (wire : Wire E) (format : String) (f32Wire : Bool) (stem : StemRef) :
    Except E (String × Planar) := do
  let raw ← wire.fetchStem stem.url
  if format = "flac" then
    let data ← wire.decodeFlac raw
    return (stem.name, rescale data stem.gain)
  else return (stem.name, deinterleave raw f32Wire stem.gain)

def kept (downloaded : List (String × Planar)) (name : String) : Option Planar :=
  downloaded.reverse.lookup name

def rebuilt (mix : Planar) (downloaded : List (String × Planar)) : Planar :=
  downloaded.foldl (fun derived stem =>
    match kept downloaded stem.1 with
    | some samples => subtract derived samples
    | none => derived) mix

def asPart (stem : String × Planar) : Part := ⟨.downloaded, stem.1, stem.2⟩

/-- Download the shipped stems and rebuild the derived part from the mix. -/
def assemble (wire : Wire E) (audio : Audio ℚ) (result : JobResult) (f32Wire : Bool) :
    Except E (List Part) := do
  let downloaded ← result.stems.mapM (download wire result.format f32Wire)
  let parts := downloaded.map asPart
  -- Already sent, because it was asked for.
  if parts.any fun part => part.name = derivedName then return parts
  -- At another rate the mix does not line up with the stems.
  if result.sampleRate ≠ audio.sampleRate then return parts
  return parts ++ [⟨.rebuiltHere, derivedName, rebuilt audio.data downloaded⟩]

end

def AddsBack (mix : Planar) (parts : List Part) : Prop :=
  ∀ c i m, sample? mix c i = some m → (parts.map fun part => sampleAt part.samples c i).sum = m

theorem subtract_sample? (a b : Planar) (c i : Nat) :
    sample? (subtract a b) c i = (sample? a c i).map (· - sampleAt b c i) := by
  simp only [sample?, subtract, List.getElem?_mapIdx]
  cases a[c]? with
  | none => rfl
  | some ch => simp

theorem foldl_subtract (taken : List Planar) (mix : Planar) (c i : Nat) :
    sample? (taken.foldl subtract mix) c i =
      (sample? mix c i).map (· - (taken.map fun planar => sampleAt planar c i).sum) := by
  induction taken generalizing mix with
  | nil => simp
  | cons planar rest ih =>
      rw [List.foldl_cons, ih, subtract_sample?, Option.map_map]
      congr 1
      funext sample
      simp [sub_sub]

def taken (downloaded : List (String × Planar)) : List Planar :=
  downloaded.filterMap fun stem => kept downloaded stem.1

theorem rebuilt_eq (mix : Planar) (downloaded : List (String × Planar)) :
    rebuilt mix downloaded = (taken downloaded).foldl subtract mix := by
  rw [taken, List.foldl_filterMap]
  unfold rebuilt
  congr 1
  funext derived stem
  cases kept downloaded stem.1 <;> rfl

theorem lookup_of_nodup {stems : List (String × Planar)} (distinct : (stems.map Prod.fst).Nodup)
    {stem : String × Planar} (member : stem ∈ stems) : stems.lookup stem.1 = some stem.2 := by
  induction stems with
  | nil => cases member
  | cons first rest ih =>
      rw [List.map_cons, List.nodup_cons] at distinct
      rcases List.mem_cons.mp member with rfl | later
      · exact List.lookup_cons_self
      · have apart : ¬ stem.1 == first.1 := by
          intro same
          exact distinct.1 (beq_iff_eq.mp same ▸ List.mem_map_of_mem later)
        rw [List.lookup_cons, Bool.eq_false_iff.mpr apart]
        exact ih distinct.2 later

theorem taken_of_nodup {downloaded : List (String × Planar)}
    (distinct : (downloaded.map Prod.fst).Nodup) : taken downloaded = downloaded.map Prod.snd := by
  rw [taken, ← List.filterMap_eq_map]
  refine List.filterMap_congr fun stem member => ?_
  have backwards : (downloaded.reverse.map Prod.fst).Nodup := by
    rw [List.map_reverse]
    exact List.nodup_reverse.mpr distinct
  exact lookup_of_nodup backwards (List.mem_reverse.mpr member)

/-- Where the mix has a sample, the parts come to it and to what by name was not taken away once. -/
theorem sum_rebuilt (mix : Planar) (downloaded : List (String × Planar)) {c i : Nat} {m : ℚ}
    (here : sample? mix c i = some m) :
    (downloaded.map fun stem => sampleAt stem.2 c i).sum + sampleAt (rebuilt mix downloaded) c i =
      m + ((downloaded.map fun stem => sampleAt stem.2 c i).sum -
        ((taken downloaded).map fun planar => sampleAt planar c i).sum) := by
  have left : sampleAt (rebuilt mix downloaded) c i =
      m - ((taken downloaded).map fun planar => sampleAt planar c i).sum := by
    rw [sampleAt, rebuilt_eq, foldl_subtract, here]
    rfl
  rw [left]
  ring

section

variable {E : Type} {wire : Wire E} {audio : Audio ℚ} {result : JobResult} {f32Wire : Bool}
  {parts : List Part}

theorem names_of_fetched {stems : List StemRef} {format : String}
    {downloaded : List (String × Planar)}
    (fetched : stems.mapM (download wire format f32Wire) = .ok downloaded) :
    stems.map StemRef.name = downloaded.map Prod.fst := by
  induction stems generalizing downloaded with
  | nil =>
      cases fetched
      rfl
  | cons stem rest ih =>
      rw [List.mapM_cons] at fetched
      obtain ⟨first, here, fetched⟩ := bind_ok fetched
      obtain ⟨others, later, fetched⟩ := bind_ok fetched
      cases fetched
      rw [List.map_cons, List.map_cons, ih later]
      congr 1
      obtain ⟨raw, -, here⟩ := bind_ok here
      split at here
      · obtain ⟨data, -, here⟩ := bind_ok here
        cases here
        rfl
      · cases here
        rfl

theorem sent_iff (downloaded : List (String × Planar)) :
    ((downloaded.map asPart).any fun part => part.name = derivedName) = true ↔
      derivedName ∈ downloaded.map Prod.fst := by
  constructor
  · intro found
    obtain ⟨part, member, named⟩ := List.any_eq_true.mp found
    obtain ⟨stem, inside, rfl⟩ := List.mem_map.mp member
    exact List.mem_map.mpr ⟨stem, inside, of_decide_eq_true named⟩
  · intro found
    obtain ⟨stem, inside, named⟩ := List.mem_map.mp found
    exact List.any_eq_true.mpr ⟨asPart stem, List.mem_map_of_mem inside, decide_eq_true named⟩

theorem assemble_rebuilds {downloaded : List (String × Planar)}
    (fetched : result.stems.mapM (download wire result.format f32Wire) = .ok downloaded)
    (absent : derivedName ∉ downloaded.map Prod.fst)
    (together : result.sampleRate = audio.sampleRate) :
    assemble wire audio result f32Wire = .ok (downloaded.map asPart ++
      [⟨.rebuiltHere, derivedName, rebuilt audio.data downloaded⟩]) := by
  unfold assemble
  rw [fetched, ok_bind]
  exact (if_neg fun found => absent ((sent_iff downloaded).mp found)).trans
    (if_neg (not_not.mpr together))

theorem assemble_cases (done : assemble wire audio result f32Wire = .ok parts) :
    ∃ downloaded, result.stems.mapM (download wire result.format f32Wire) = .ok downloaded ∧
      (parts = downloaded.map asPart ∨ parts = downloaded.map asPart ++
        [⟨.rebuiltHere, derivedName, rebuilt audio.data downloaded⟩]) := by
  unfold assemble at done
  obtain ⟨downloaded, fetched, done⟩ := bind_ok done
  refine ⟨downloaded, fetched, ?_⟩
  change (if _ then _ else _) = _ at done
  split at done
  · exact .inl (Except.ok.inj done).symm
  · change (if _ then _ else _) = _ at done
    split at done
    · exact .inl (Except.ok.inj done).symm
    · exact .inr (Except.ok.inj done).symm

/-- What is left adds back exactly where taking away by name took each stem once. -/
theorem adds_back_iff (done : assemble wire audio result f32Wire = .ok parts)
    (whole : ∃ part ∈ parts, part.origin = .rebuiltHere) :
    AddsBack audio.data parts ↔ ∃ downloaded,
      result.stems.mapM (download wire result.format f32Wire) = .ok downloaded ∧
      ∀ c i m, sample? audio.data c i = some m →
        (downloaded.map fun stem => sampleAt stem.2 c i).sum =
          ((taken downloaded).map fun planar => sampleAt planar c i).sum := by
  obtain ⟨downloaded, fetched, rfl | rfl⟩ := assemble_cases done
  · obtain ⟨part, member, origin⟩ := whole
    obtain ⟨stem, -, rfl⟩ := List.mem_map.mp member
    cases origin
  · have sums (c i : Nat) (m : ℚ) (here : sample? audio.data c i = some m) :=
      sum_rebuilt audio.data downloaded here
    unfold AddsBack
    simp only [List.map_append, List.map_map, List.sum_append, List.map_cons, List.map_nil,
      List.sum_cons, List.sum_nil, add_zero]
    constructor
    · refine fun back => ⟨downloaded, fetched, fun c i m here => ?_⟩
      have all := (sums c i m here).symm.trans (back c i m here)
      linarith
    · rintro ⟨downloaded', fetched', same⟩ c i m here
      obtain rfl := Except.ok.inj (fetched.symm.trans fetched')
      refine (sums c i m here).trans ?_
      rw [same c i m here]
      ring

/-- Under names of their own, whatever was sent of the stems and however it was scaled, the parts
add back up to the mix. -/
theorem adds_back (done : assemble wire audio result f32Wire = .ok parts)
    (whole : ∃ part ∈ parts, part.origin = .rebuiltHere)
    (distinct : (result.stems.map StemRef.name).Nodup) : AddsBack audio.data parts := by
  refine (adds_back_iff done whole).mpr ?_
  obtain ⟨downloaded, fetched, -⟩ := assemble_cases done
  refine ⟨downloaded, fetched, fun c i m _ => ?_⟩
  rw [taken_of_nodup (names_of_fetched fetched ▸ distinct), List.map_map]
  rfl

end

end Stemd.Client
