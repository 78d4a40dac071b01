import Mathlib.Algebra.BigOperators.Group.Finset.Sigma
import Mathlib.Algebra.Order.Ring.Int
import Mathlib.Data.Nat.Cast.Order.Ring
import Stemd.Semantics.TensorOps

/-! Summing overlapping frames back into rows of samples.

Frames a whole number of windows apart cannot overlap, so every such group is laid end to
end in one reshape, and the groups are summed at one-hop offsets. A slot is widened to whole
hops first, so that the groups line up whether or not the hop divides the window. -/

set_option autoImplicit false

namespace Stemd.Mlx

open Stemd.Semantics

/-- `(a + b - 1) / b`, for positive integers. -/
def divCeil (a b : Int) : Int := (a + b - 1).tdiv b

inductive SpectralError where
  /-- `reflect padding of ({left}, {right}) needs more than {n} samples` -/
  | reflect (left right n : Int)
  /-- `{samples} samples is fewer than one {n_fft}-point frame` -/
  | short (samples nFft : Int)
  /-- `a hop of {hop} does not divide {N_FFT} evenly` -/
  | uneven (hop : Int)
  /-- `there are no frames to invert` -/
  | noFrames
  /-- An array operation whose sizes or bounds do not fit. -/
  | array
  deriving DecidableEq, Repr

def fitting {α : Type} : Option α → Except SpectralError α
  | some value => .ok value
  | none => .error .array

def lastAxis {K : Type} (x : Tensor K) : Except SpectralError (Nat × Nat) :=
  match x.shape.getLast? with
  | some n => .ok (x.shape.length - 1, n)
  | none => .error .array

theorem lastAxis_eq {K : Type} {x : Tensor K} {lead : List Nat} {n : Nat}
    (shape : x.shape = lead ++ [n]) : lastAxis x = .ok (lead.length, n) := by
  simp [lastAxis, shape]

/-- `(start..stop).step_by(step)` -/
def stepBy (start stop step : Int) : List Int :=
  (List.range ((stop - start + step - 1) / step).toNat).map fun n : Nat => start + n * step

section

variable {K : Type} [Zero K] [Add K]

def widen (framesTime : Tensor K) (nFft slot : Int) : Except SpectralError (Tensor K) :=
  if slot > nFft then fitting (framesTime.pad [(0, 0), (0, 0), (0, slot - nFft)])
  else .ok framesTime

/-- One turn of the loop: gather every `groups`-th frame from `start` on, lay them end to end
and add them in. A group of no frames is passed over. -/
def addGroup (framed : Tensor K) (rows frames : Nat) (groups slot hop buffer : Int)
    (total : Option (Tensor K)) (start : Int) : Except SpectralError (Option (Tensor K)) := do
  let taken := stepBy start frames groups
  let count := taken.length
  if count = 0 then return total
  let gathered ← fitting (framed.takeAxis taken 1)
  let joined ← fitting (gathered.reshape [rows, (count * slot).toNat])
  let left := start * hop
  let right := buffer - left - count * slot
  let placed ← fitting (joined.pad [(0, 0), (left, right)])
  match total with
  | some total => return some (← fitting (total.zipWith (· + ·) placed))
  | none => return some placed

/-- Sum `[rows, frames, n_fft]` back into `[rows, width]`, each frame `hop` further along than
the last. -/
def overlapAdd (framesTime : Tensor K) (hop width : Int) : Except SpectralError (Tensor K) := do
  let [rows, frames, nFft] := framesTime.shape | throw .array
  let groups := divCeil nFft hop
  let slot := groups * hop
  let framed ← widen framesTime nFft slot
  let countIn := fun start : Int => divCeil (frames - start) groups
  let starts := (List.range groups.toNat).map Int.ofNat
  -- The slots of the last group can run past the audio, so the buffer holds them all.
  let buffer := starts.foldl (fun buffer start => max buffer (start * hop + countIn start * slot))
    width
  let total ← starts.foldlM (addGroup framed rows frames groups slot hop buffer) none
  match total with
  | some total => fitting (total.slice 1 0 width)
  | none => throw .noFrames

end

theorem divCeil_eq {a : Int} {b : Nat} (nonneg : 0 ≤ a + b - 1) :
    divCeil a b = (((a + b - 1).toNat / b : Nat) : Int) := by
  rw [divCeil, Int.tdiv_eq_ediv_of_nonneg nonneg, Int.natCast_ediv, Int.toNat_of_nonneg nonneg]

theorem sum_by_residue {K : Type} [AddCommMonoid K] {frames groups : Nat} (count : Nat → Nat)
    (positive : 0 < groups)
    (counts : ∀ start < groups, ∀ j, j < count start ↔ start + j * groups < frames)
    (g : Nat → K) :
    ∑ start ∈ Finset.range groups, ∑ j ∈ Finset.range (count start), g (start + j * groups) =
      ∑ f ∈ Finset.range frames, g f := by
  rw [Finset.sum_sigma']
  refine Finset.sum_nbij' (fun p => p.1 + p.2 * groups) (fun f => ⟨f % groups, f / groups⟩)
    ?_ ?_ ?_ ?_ fun _ _ => rfl
  · rintro ⟨start, j⟩ member
    simp only [Finset.mem_sigma, Finset.mem_range] at member ⊢
    exact (counts start member.1 j).mp member.2
  · intro f member
    have residue := Nat.mod_lt f positive
    simp only [Finset.mem_sigma, Finset.mem_range] at member ⊢
    refine ⟨residue, (counts _ residue _).mpr ?_⟩
    rwa [Nat.mul_comm, Nat.mod_add_div]
  · rintro ⟨start, j⟩ member
    have below := (Finset.mem_range.mp (Finset.mem_sigma.mp member).1)
    have residue : (start + j * groups) % groups = start := by
      rw [Nat.add_mul_mod_self_right, Nat.mod_eq_of_lt below]
    have quotient : (start + j * groups) / groups = j := by
      rw [Nat.add_mul_div_right _ _ positive, Nat.div_eq_of_lt below, Nat.zero_add]
    simp only [residue, quotient]
  · intro f _
    change f % groups + f / groups * groups = f
    rw [Nat.mul_comm, Nat.mod_add_div]

section

variable {K : Type} [AddCommMonoid K]

def contribution (x : Tensor K) (nFft hop r f t : Nat) : K :=
  if f * hop ≤ t ∧ t < f * hop + nFft then x.get [r, f, t - f * hop] else 0

theorem sum_slots {size slot : Nat} (fits : size ≤ slot) (positive : 0 < slot) (count p : Nat)
    (g : Nat → Nat → K) :
    ∑ j ∈ Finset.range count,
        (if j * slot ≤ p ∧ p < j * slot + size then g j (p - j * slot) else 0) =
      if p < count * slot ∧ p % slot < size then g (p / slot) (p % slot) else 0 := by
  have split : p / slot * slot + p % slot = p := Nat.div_add_mod' p slot
  have small := Nat.mod_lt p positive
  have unique : ∀ j, j * slot ≤ p ∧ p < j * slot + size → j = p / slot := by
    rintro j ⟨low, high⟩
    apply Nat.le_antisymm
    · exact (Nat.le_div_iff_mul_le positive).mpr low
    · apply Nat.lt_succ_iff.mp
      rw [Nat.div_lt_iff_lt_mul positive, Nat.succ_mul]
      omega
  have rest : p - p / slot * slot = p % slot := by omega
  have inside : p / slot < count ↔ p < count * slot := Nat.div_lt_iff_lt_mul positive
  by_cases within : p < count * slot ∧ p % slot < size
  · rw [if_pos within, Finset.sum_eq_single (p / slot), if_pos (by omega), rest]
    · intro j _ other
      exact if_neg fun here => other (unique j here)
    · intro absent
      exact absurd (Finset.mem_range.mpr (inside.mpr within.1)) absent
  · rw [if_neg within]
    apply Finset.sum_eq_zero
    intro j member
    refine if_neg fun here => within ?_
    obtain rfl := unique j here
    exact ⟨inside.mp (Finset.mem_range.mp member), by omega⟩

structure Widened (x framed : Tensor K) (rows frames nFft slot : Nat) : Prop where
  shape : framed.shape = [rows, frames, slot]
  entry : ∀ r f t, r < rows → f < frames → t < slot →
    framed.get [r, f, t] = if t < nFft then x.get [r, f, t] else 0

theorem widen_spec {x : Tensor K} {rows frames nFft slot : Nat}
    (shape : x.shape = [rows, frames, nFft]) (fits : nFft ≤ slot) :
    ∃ framed, widen x nFft slot = .ok framed ∧ Widened x framed rows frames nFft slot := by
  by_cases wider : (slot : Int) > nFft
  · obtain ⟨framed, padded, changed, entry⟩ :=
      Tensor.padLast_spec [rows, frames] nFft shape (Int.le_refl 0)
        (show (0 : Int) ≤ slot - nFft by omega)
    have width : (0 : Int).toNat + nFft + ((slot : Int) - nFft).toNat = slot := by omega
    refine ⟨framed, ?_, changed.trans (by rw [width]; rfl), fun r f t row frame sample => ?_⟩
    · rw [widen, if_pos wider]
      exact congrArg fitting padded
    · have here := entry [r, f] t (.cons row (.cons frame .nil)) (by omega)
      refine here.trans (if_congr (by omega) rfl rfl)
  · have same : slot = nFft := by omega
    subst same
    exact ⟨x, if_neg wider, shape, fun r f t _ _ sample => (if_pos sample).symm⟩

def groupSize (frames groups start : Nat) : Nat := (frames + groups - 1 - start) / groups

theorem lt_groupSize {frames groups : Nat} (positive : 0 < groups) (start j : Nat) :
    j < groupSize frames groups start ↔ start + j * groups < frames := by
  rw [groupSize, Nat.lt_iff_add_one_le, Nat.le_div_iff_mul_le positive, Nat.succ_mul]
  omega

theorem stepBy_eq {frames groups start : Nat} (below : start < groups) :
    stepBy start frames groups = (List.range (groupSize frames groups start)).map
      fun n : Nat => (start + n * groups : Int) := by
  have numerator : (frames : Int) - start + groups - 1 = (frames + groups - 1 - start : Nat) := by
    omega
  rw [stepBy, numerator, ← Int.natCast_ediv, Int.toNat_natCast]
  rfl

theorem placed_spec {x framed : Tensor K} {rows frames nFft groups hop buffer start : Nat}
    (widened : Widened x framed rows frames nFft (groups * hop)) (fits : nFft ≤ groups * hop)
    (hops : 0 < hop) (below : start < groups)
    (room : start * hop + groupSize frames groups start * (groups * hop) ≤ buffer) :
    ∃ gathered joined placed, framed.takeAxis (stepBy start frames groups) 1 = some gathered ∧
      gathered.reshape [rows, groupSize frames groups start * (groups * hop)] = some joined ∧
      joined.pad [(0, 0), ((start : Int) * hop, (buffer : Int) - start * hop -
        (groupSize frames groups start : Nat) * ((groups : Int) * hop))] = some placed ∧
      placed.shape = [rows, buffer] ∧ ∀ r t, r < rows → t < buffer → placed.get [r, t] =
        ∑ j ∈ Finset.range (groupSize frames groups start),
          contribution x nFft hop r (start + j * groups) t := by
  have groupsPositive : 0 < groups := by omega
  have slotPositive : 0 < groups * hop := Nat.mul_pos groupsPositive hops
  have members : ∀ j, j < groupSize frames groups start ↔ start + j * groups < frames :=
    lt_groupSize groupsPositive start
  rw [stepBy_eq below]
  generalize groupSize frames groups start = count at *
  generalize slotIs : groups * hop = slot at *
  obtain ⟨gathered, taken, gatheredShape, gatheredEntry⟩ :=
    Tensor.takeAxis_spec [rows] frames [slot] widened.shape
      ((List.range count).map fun n : Nat => (start + n * groups : Int)) (by
        intro n member
        obtain ⟨j, inside, rfl⟩ := List.mem_map.mp member
        have := (members j).mp (List.mem_range.mp inside)
        constructor <;> omega)
  rw [List.length_map, List.length_range] at gatheredShape gatheredEntry
  obtain ⟨joined, reshaped, joinedShape, joinedEntry⟩ :=
    gathered.reshape_spec [rows, count * slot] (by rw [gatheredShape]; simp)
  obtain ⟨placed, padded, placedShape, placedEntry⟩ :=
    Tensor.padLast_spec [rows] (count * slot) joinedShape
      (show (0 : Int) ≤ (start * hop : Nat) by omega)
      (show (0 : Int) ≤ (buffer : Int) - (start * hop : Nat) - (count * slot : Nat) by omega)
  -- Entry `p` of a group laid end to end is an entry of frame `p / slot` of the group.
  have laid : ∀ r p, r < rows → p < count * slot → joined.get [r, p] =
      if p % slot < nFft then x.get [r, start + p / slot * groups, p % slot] else 0 := by
    intro r p row inside
    have frame : p / slot < count := (Nat.div_lt_iff_lt_mul slotPositive).mpr inside
    have small := Nat.mod_lt p slotPositive
    have place : position [rows, count * slot] [r, p] =
        position gathered.shape [r, p / slot, p % slot] := by
      rw [gatheredShape]
      simp only [position, List.cons_append, List.nil_append, List.prod_cons, List.prod_nil,
        Nat.mul_one, Nat.add_zero]
      rw [Nat.div_add_mod']
    have source : (((List.range count).map fun n : Nat => (start + n * groups : Int)).getD
        (p / slot) 0).toNat = start + p / slot * groups := by
      rw [List.getD_eq_getElem _ _ (by simpa using frame), List.getElem_map, List.getElem_range]
      omega
    calc joined.get [r, p]
        = gathered.get [r, p / slot, p % slot] := joinedEntry _ _ place
      _ = framed.get [r, start + p / slot * groups, p % slot] := by
          have here := gatheredEntry [r] _ [p % slot] (.cons row .nil) frame (.cons small .nil)
          rw [source] at here
          exact here
      _ = _ := widened.entry r _ _ row ((members _).mp frame) small
  refine ⟨gathered, joined, placed, taken, reshaped, ?_, ?_, fun r t row inside => ?_⟩
  · rw [← padded]
    push_cast [← slotIs]
    rfl
  · refine placedShape.trans ?_
    have width : ((start * hop : Nat) : Int).toNat + count * slot +
        ((buffer : Int) - (start * hop : Nat) - (count * slot : Nat)).toNat = buffer := by omega
    rw [width]
    rfl
  · have starts : ∀ j, (start + j * groups) * hop = start * hop + j * slot := by
      intro j
      rw [← slotIs, Nat.add_mul, Nat.mul_assoc]
    refine (placedEntry [r] t (.cons row .nil) (by omega)).trans ?_
    by_cases late : start * hop ≤ t
    · have terms : ∀ j, contribution x nFft hop r (start + j * groups) t =
          if j * slot ≤ t - start * hop ∧ t - start * hop < j * slot + nFft then
            x.get [r, start + j * groups, t - start * hop - j * slot] else 0 := by
        intro j
        rw [contribution, starts, Nat.sub_sub]
        exact if_congr (by omega) rfl rfl
      simp only [terms]
      rw [sum_slots fits slotPositive count _ fun j k => x.get [r, start + j * groups, k]]
      by_cases heard : t - start * hop < count * slot
      · rw [if_pos (by omega)]
        refine (laid r (t - start * hop) row heard).trans ?_
        exact if_congr (by simp [heard]) rfl rfl
      · rw [if_neg (by omega), if_neg (by omega)]
    · rw [if_neg (by omega)]
      refine (Finset.sum_eq_zero fun j _ => if_neg ?_).symm
      rw [starts]
      omega

structure Summed (x : Tensor K) (rows frames nFft groups hop buffer : Nat)
    (total : Option (Tensor K)) (seen : Nat) : Prop where
  empty : total = none → ∀ start < seen, groupSize frames groups start = 0
  shape : ∀ sum, total = some sum → sum.shape = [rows, buffer]
  entry : ∀ sum, total = some sum → ∀ r t, r < rows → t < buffer → sum.get [r, t] =
    ∑ start ∈ Finset.range seen, ∑ j ∈ Finset.range (groupSize frames groups start),
      contribution x nFft hop r (start + j * groups) t

theorem addGroup_spec {x framed : Tensor K} {rows frames nFft groups hop buffer start : Nat}
    (widened : Widened x framed rows frames nFft (groups * hop)) (fits : nFft ≤ groups * hop)
    (hops : 0 < hop) (below : start < groups)
    (room : start * hop + groupSize frames groups start * (groups * hop) ≤ buffer)
    {total : Option (Tensor K)} (summed : Summed x rows frames nFft groups hop buffer total start) :
    ∃ total', addGroup framed rows frames groups ((groups : Int) * hop) hop buffer total start =
        .ok total' ∧ Summed x rows frames nFft groups hop buffer total' (start + 1) := by
  have count : (stepBy start frames groups).length = groupSize frames groups start := by
    rw [stepBy_eq below, List.length_map, List.length_range]
  by_cases empty : groupSize frames groups start = 0
  · refine ⟨total, ?_, ?_⟩
    · rw [addGroup]
      simp only [count, empty]
      rfl
    · constructor
      · intro is start' seen
        rcases Nat.lt_succ_iff_lt_or_eq.mp seen with before | rfl
        · exact summed.empty is start' before
        · exact empty
      · exact summed.shape
      · intro sum is r t row inside
        rw [Finset.sum_range_succ, empty, Finset.sum_range_zero, add_zero]
        exact summed.entry sum is r t row inside
  · obtain ⟨gathered, joined, placed, taken, reshaped, padded, placedShape, placedEntry⟩ :=
      placed_spec widened fits hops below room
    have sized : ((groupSize frames groups start : Nat) * ((groups : Int) * hop)).toNat =
        groupSize frames groups start * (groups * hop) := by
      rw [← Int.natCast_mul, ← Int.natCast_mul, Int.toNat_natCast]
    cases total with
    | none =>
        refine ⟨some placed, ?_, ?_⟩
        · simp only [addGroup, count, empty, taken, fitting, sized, reshaped, padded, bind,
            Except.bind, if_false]
          rfl
        · constructor
          · intro is
            cases is
          · rintro sum ⟨⟩
            exact placedShape
          · rintro sum ⟨⟩ r t row inside
            have before : ∑ start' ∈ Finset.range start,
                ∑ j ∈ Finset.range (groupSize frames groups start'),
                  contribution x nFft hop r (start' + j * groups) t = 0 := by
              apply Finset.sum_eq_zero
              intro start' seen
              rw [summed.empty rfl start' (Finset.mem_range.mp seen), Finset.sum_range_zero]
            rw [placedEntry r t row inside, Finset.sum_range_succ, before, zero_add]
    | some sum =>
        have shape := summed.shape sum rfl
        obtain ⟨both, added, bothShape, bothEntry⟩ :=
          Tensor.zipWith_self_spec (· + ·) (placedShape.trans shape.symm)
        refine ⟨some both, ?_, ?_⟩
        · simp only [addGroup, count, empty, taken, fitting, sized, reshaped, padded, added, bind,
            Except.bind, if_false]
          rfl
        · constructor
          · intro is
            cases is
          · rintro sum' ⟨⟩
            exact bothShape.trans shape
          · rintro sum' ⟨⟩ r t row inside
            rw [bothEntry [r, t] (by rw [shape]; exact .cons row (.cons inside .nil)),
              Finset.sum_range_succ, placedEntry r t row inside,
              summed.entry sum rfl r t row inside]

theorem addGroups_spec {x framed : Tensor K} {rows frames nFft groups hop buffer : Nat}
    (widened : Widened x framed rows frames nFft (groups * hop)) (fits : nFft ≤ groups * hop)
    (hops : 0 < hop)
    (room : ∀ start < groups,
      start * hop + groupSize frames groups start * (groups * hop) ≤ buffer)
    (seen : Nat) (within : seen ≤ groups) :
    ∃ total, ((List.range seen).map Int.ofNat).foldlM
        (addGroup framed rows frames groups ((groups : Int) * hop) hop buffer) none = .ok total ∧
      Summed x rows frames nFft groups hop buffer total seen := by
  induction seen with
  | zero =>
      refine ⟨none, rfl, ?_, ?_, ?_⟩
      · intro _ start before
        exact absurd before (Nat.not_lt_zero start)
      · intro sum is
        cases is
      · intro sum is
        cases is
  | succ seen ih =>
      obtain ⟨total, run, summed⟩ := ih (Nat.le_of_succ_le within)
      obtain ⟨total', turn, summed'⟩ :=
        addGroup_spec widened fits hops within (room seen within) summed
      refine ⟨total', ?_, summed'⟩
      rw [List.range_succ, List.map_append, List.foldlM_append, run]
      simp only [List.map_cons, List.map_nil, List.foldlM_cons, List.foldlM_nil, bind, Except.bind,
        Int.ofNat_eq_natCast, turn]
      rfl

theorem buffer_spec {groups hop : Nat} (frames width seen : Nat) (within : seen ≤ groups) :
    ∃ buffer : Nat, ((List.range seen).map Int.ofNat).foldl (fun buffer start =>
        max buffer (start * hop + divCeil (frames - start) groups * ((groups : Int) * hop)))
        (width : Int) = buffer ∧ width ≤ buffer ∧ ∀ start < seen,
          start * hop + groupSize frames groups start * (groups * hop) ≤ buffer := by
  induction seen with
  | zero =>
      refine ⟨width, rfl, Nat.le_refl width, ?_⟩
      intro start before
      exact absurd before (Nat.not_lt_zero start)
  | succ seen ih =>
      obtain ⟨buffer, run, wide, room⟩ := ih (Nat.le_of_succ_le within)
      have count : divCeil ((frames : Int) - seen) groups =
          (groupSize frames groups seen : Nat) := by
        have numerator : (frames : Int) - seen + groups - 1 =
            (frames + groups - 1 - seen : Nat) := by omega
        rw [divCeil_eq (by omega), numerator, Int.toNat_natCast, groupSize]
      refine ⟨max buffer (seen * hop + groupSize frames groups seen * (groups * hop)), ?_,
        Nat.le_trans wide (Nat.le_max_left _ _), fun start before => ?_⟩
      · rw [List.range_succ, List.map_append, List.foldl_append, run]
        simp only [List.map_cons, List.map_nil, List.foldl_cons, List.foldl_nil,
          Int.ofNat_eq_natCast, count]
        rw [Nat.cast_max]
        push_cast
        rfl
      · rcases Nat.lt_succ_iff_lt_or_eq.mp before with earlier | rfl
        · exact Nat.le_trans (room start earlier) (Nat.le_max_left _ _)
        · exact Nat.le_max_right _ _

theorem overlapAdd_spec {x : Tensor K} {rows frames nFft hop : Nat}
    (shape : x.shape = [rows, frames, nFft]) (nonempty : 0 < frames) (window : 0 < nFft)
    (hops : 0 < hop) (width : Nat) :
    ∃ y, overlapAdd x hop width = .ok y ∧ y.shape = [rows, width] ∧
      ∀ r t, r < rows → t < width →
        y.get [r, t] = ∑ f ∈ Finset.range frames, contribution x nFft hop r f t := by
  obtain ⟨groups, groupsIs⟩ : ∃ groups, groups = (nFft + hop - 1) / hop := ⟨_, rfl⟩
  have divided : divCeil nFft hop = (groups : Nat) := by
    have numerator : ((nFft : Int) + hop - 1).toNat = nFft + hop - 1 := by omega
    rw [divCeil_eq (by omega), numerator, groupsIs]
  have fits : nFft ≤ groups * hop := by
    have small := Nat.mod_lt (nFft + hop - 1) hops
    have split := Nat.div_add_mod' (nFft + hop - 1) hop
    rw [← groupsIs] at split
    omega
  have positive : 0 < groups := by
    rw [groupsIs]
    exact Nat.div_pos (by omega) hops
  obtain ⟨framed, widening, widened⟩ := widen_spec shape fits
  obtain ⟨buffer, bufferIs, wide, room⟩ := buffer_spec frames width groups (Nat.le_refl groups)
  obtain ⟨total, run, summed⟩ :=
    addGroups_spec widened fits hops room groups (Nat.le_refl groups)
  cases total with
  | none =>
      have first : 0 < groupSize frames groups 0 := (lt_groupSize positive 0 0).mpr (by omega)
      rw [summed.empty rfl 0 positive] at first
      exact absurd first (Nat.lt_irrefl 0)
  | some sum =>
      obtain ⟨y, sliced, sliceShape, sliceEntry⟩ :=
        Tensor.slice_spec [rows] buffer [] (summed.shape sum rfl) (Int.le_refl 0)
          (show (0 : Int) ≤ width by omega) (show (width : Int) ≤ buffer by omega)
      refine ⟨y, ?_, by simpa using sliceShape, fun r t row inside => ?_⟩
      · have starts : ((groups : Nat) : Int).toNat = groups := Int.toNat_natCast groups
        have slot : ((groups : Int) * hop) = ((groups * hop : Nat) : Int) := by push_cast; rfl
        simp only [overlapAdd, shape, divided, slot, starts, widening, bind, Except.bind]
        simp only [← slot, bufferIs, run]
        exact congrArg fitting sliced
      · have here := sliceEntry [r] t [] (.cons row .nil) (by omega) .nil
        refine here.trans ?_
        rw [Int.toNat_zero, Nat.zero_add]
        refine (summed.entry sum rfl r t row (by omega)).trans ?_
        exact sum_by_residue (groupSize frames groups) positive
          (fun start _ j => lt_groupSize positive start j) fun f => contribution x nFft hop r f t

/-- The sum as one would write it down: at sample `t`, frame `f` contributes its sample
`t - f * hop`. -/
def naiveOverlapAdd (x : Tensor K) (hop width : Nat) : Tensor K :=
  .build [x.shape.getD 0 0, width] fun index => ∑ f ∈ Finset.range (x.shape.getD 1 0),
    contribution x (x.shape.getD 2 0) hop (index.getD 0 0) f (index.getD 1 0)

/-- Placing the frames group by group is placing them one by one. -/
theorem overlapAdd_eq_naive {x : Tensor K} {rows frames nFft hop : Nat}
    (shape : x.shape = [rows, frames, nFft]) (nonempty : 0 < frames) (window : 0 < nFft)
    (hops : 0 < hop) (width : Nat) :
    overlapAdd x hop width = .ok (naiveOverlapAdd x hop width) := by
  obtain ⟨y, run, changed, entry⟩ := overlapAdd_spec shape nonempty window hops width
  rw [run]
  congr 1
  have same : y.shape = (naiveOverlapAdd x hop width).shape := by
    rw [changed, naiveOverlapAdd, Tensor.build_shape, shape]
    rfl
  apply Tensor.ext_get same
  intro index within
  have within' : Within index [x.shape.getD 0 0, width] := by
    rw [same] at within
    exact within
  rw [changed] at within
  obtain ⟨r, t, rfl, row, inside⟩ := Tensor.within_two within
  rw [entry r t row inside, naiveOverlapAdd, Tensor.get_build _ within', shape]
  rfl

end

def threeFrames : Tensor ℤ := ⟨[1, 3, 3], [1, 2, 3, 10, 20, 30, 100, 200, 300], rfl⟩

theorem three_frames_overlap :
    overlapAdd threeFrames 2 7 = .ok (naiveOverlapAdd threeFrames 2 7) ∧
      (naiveOverlapAdd threeFrames 2 7).data = [1, 2, 13, 20, 130, 200, 300] :=
  ⟨overlapAdd_eq_naive rfl (by decide) (by decide) (by decide) 7, by decide⟩

end Stemd.Mlx
