import Mathlib.Data.List.GetD
import Stemd.Core.Resample
import Stemd.Semantics.Polyphase

/-! DSP mode 1: a fixed 44.1 to 96 kHz resampler.

Sample arithmetic is exact here, over any semiring. The rest is as the program has it: the
taps are laid out by branch, the newest sample and the phase are carried from one output
frame to the next, and the output is cut into ranges that are filled on their own. What
would panic is `none`. -/

set_option autoImplicit false

namespace Stemd.Core

theorem mapM_eq_map {m : Type → Type} [Monad m] [LawfulMonad m] {α β : Type} {f : α → m β}
    {g : α → β} {items : List α} (total : ∀ a ∈ items, f a = pure (g a)) :
    items.mapM f = pure (items.map g) := by
  induction items with
  | nil => exact List.mapM_nil
  | cons item rest ih =>
      rw [List.mapM_cons, total item List.mem_cons_self, pure_bind,
        ih fun a member => total a (List.mem_cons_of_mem _ member), pure_bind, List.map_cons]

end Stemd.Core

namespace Stemd.Core.Mode1

open Stemd.Semantics

def inRate : UInt32 := 44100

def outRate : UInt32 := 96000

/-- `96000 / 44100` reduced: the interpolation factor. -/
def factorL : Nat := 320

def factorM : Nat := 147

/-- Taps in a polyphase branch: `18880 / 320`. -/
def branchTaps : Nat := 59

structure Prototype (R : Type) where
  taps : List R
  length : taps.length = factorL * branchTaps

variable {R : Type}

/-- The prototype split into its branches and each one reversed:
`branch[r][i] = p[r + 320 * (58 - i)]`. -/
def Prototype.branches (p : Prototype R) : List (List R) :=
  List.ofFn fun r : Fin factorL => List.ofFn fun i : Fin branchTaps =>
    p.taps.get ⟨r + factorL * (branchTaps - 1 - i), by
      have length := p.length
      have phase := r.isLt
      have tap := i.isLt
      simp only [factorL, branchTaps] at *
      omega⟩

/-- `usize` subtraction; `none` where it would go below zero. -/
def checkedSub (a b : Nat) : Option Nat := if b ≤ a then some (a - b) else none

def slice (xs : List R) (lo hi : Nat) : Option (List R) :=
  if lo ≤ hi ∧ hi ≤ xs.length then some ((xs.take hi).drop lo) else none

variable [Semiring R]

/-- The whole window is in range, so both slices run forward. -/
def interior (src taps : List R) (newest : Nat) : Option R := do
  let oldest ← checkedSub (newest + 1) branchTaps
  let window ← slice src oldest (newest + 1)
  return (window.zipWith (· * ·) taps).sum

def edgeTerm (src taps : List R) (newest j : Nat) : Option (Option R) :=
  match checkedSub newest j with
  -- Before the first sample.
  | none => some none
  | some k => match src[k]? with
      -- Past the last one.
      | none => some none
      | some x => do
          let i ← checkedSub (branchTaps - 1) j
          let t ← taps[i]?
          return some (x * t)

def edge (src taps : List R) (newest : Nat) : Option R := do
  let terms ← (List.range branchTaps).mapM (edgeTerm src taps newest)
  return (terms.filterMap id).sum

def accumulated (src taps : List R) (newest : Nat) : Option R :=
  if branchTaps - 1 ≤ newest ∧ newest < src.length then interior src taps newest
  else edge src taps newest

/-- The loop over output frames, with the newest sample and the phase carried along. -/
def fillFrom (src : List R) (b : List (List R)) : Nat → Nat → Nat → Option (List R)
  | 0, _, _ => some []
  | count + 1, newest, r => do
      let taps ← b[r]?
      let o ← accumulated src taps newest
      -- A phase step that carries moves on to the next input sample.
      let rest ←
        if factorL ≤ r + factorM then fillFrom src b count (newest + 1) (r + factorM - factorL)
        else fillFrom src b count newest (r + factorM)
      return o :: rest

def fill (src : List R) (m0 frames : Nat) (b : List (List R)) : Option (List R) :=
  let start := m0 * factorM
  fillFrom src b frames (start / factorL) (start % factorL)

def outFrames (frames : Nat) : Nat := frames * factorL / factorM

def fillRanges (src : List R) (b : List (List R)) (ranges : List (Nat × Nat)) :
    Option (List R) := do
  let pieces ← ranges.mapM fun range => fill src range.1 range.2 b
  return pieces.flatten

def divCeil (a b : Nat) : Nat := (a + b - 1) / b

/-- `chunks_mut`, by where each chunk starts and how long it is. -/
def chunks (total chunk : Nat) : List (Nat × Nat) :=
  (List.range (divCeil total chunk)).map fun i => (i * chunk, min chunk (total - i * chunk))

/-- One plane after another, each over as many threads as the machine has left for it. -/
def resample (p : Prototype R) (par : Nat) (audio : Audio R) : Option (Audio R) := do
  let n := outFrames audio.frames
  -- A track of no channels or no frames is still cut into pieces of at least one.
  let slices := max (divCeil par (max audio.channels 1)) 1
  let chunk := max (divCeil n slices) 1
  let planes ← audio.data.mapM fun src => fillRanges src p.branches (chunks n chunk)
  return ⟨planes, outRate⟩

structure Branch (p : Prototype R) (r : Nat) (taps : List R) : Prop where
  length : taps.length = branchTaps
  tap : ∀ j < branchTaps, taps[branchTaps - 1 - j]? = some (p.taps.getD (r + factorL * j) 0)

theorem Prototype.branch (p : Prototype R) {r : Nat} (bound : r < factorL) :
    ∃ taps, p.branches[r]? = some taps ∧ Branch p r taps := by
  have inside : ∀ j < branchTaps, r + factorL * j < p.taps.length := by
    intro j below
    rw [p.length]
    simp only [factorL, branchTaps] at *
    omega
  refine ⟨_, by rw [branches, List.getElem?_ofFn, dif_pos bound], by simp, fun j below => ?_⟩
  have reversed : branchTaps - 1 - j < branchTaps := by omega
  have back : branchTaps - 1 - (branchTaps - 1 - j) = j := by omega
  rw [List.getElem?_ofFn, dif_pos reversed, List.getD_eq_getElem _ _ (inside j below)]
  simp [back]

theorem mem_branches {p : Prototype R} {taps : List R} (member : taps ∈ p.branches) :
    ∃ r < factorL, Branch p r taps := by
  obtain ⟨r, rfl⟩ := List.mem_ofFn.mp member
  obtain ⟨taps, here, branch⟩ := p.branch r.isLt
  rw [Prototype.branches, List.getElem?_ofFn, dif_pos r.isLt] at here
  exact ⟨r, r.isLt, Option.some.inj here ▸ branch⟩

abbrev windowed (p : Prototype R) (src : List R) (newest r : Nat) : R :=
  Polyphase.window factorL branchTaps p.taps src newest r

theorem sum_map_range (f : Nat → R) (n : Nat) :
    ((List.range n).map f).sum = ∑ i ∈ Finset.range n, f i := by
  induction n with
  | zero => rfl
  | succ n ih => simp [List.range_succ, Finset.sum_range_succ, ih]

theorem sum_filterMap_id (terms : List (Option R)) :
    (terms.filterMap id).sum = (terms.map (·.getD 0)).sum := by
  induction terms with
  | nil => rfl
  | cons term rest ih =>
      cases term with
      | none => simpa using ih
      | some value => simpa using congrArg (value + ·) ih

theorem edge_eq {p : Prototype R} {r : Nat} {taps : List R} (branch : Branch p r taps)
    (src : List R) (newest : Nat) : edge src taps newest = some (windowed p src newest r) := by
  have term : ∀ j ∈ List.range branchTaps, edgeTerm src taps newest j =
      some (((checkedSub newest j).bind (src[·]?)).map (· * p.taps.getD (r + factorL * j) 0)) := by
    intro j member
    have below : j < branchTaps := List.mem_range.mp member
    have reach : checkedSub (branchTaps - 1) j = some (branchTaps - 1 - j) := if_pos (by omega)
    unfold edgeTerm
    cases checkedSub newest j with
    | none => rfl
    | some k =>
        cases here : src[k]? with
        | none => simp [here]
        | some x => simp [here, reach, branch.tap j below]
  have product : ∀ j, (((checkedSub newest j).bind (src[·]?)).map
      (· * p.taps.getD (r + factorL * j) 0)).getD 0 =
        Polyphase.padded src (newest - j) * p.taps.getD (r + factorL * j) 0 := by
    intro j
    unfold checkedSub
    split
    · rename_i before
      rw [← Nat.cast_sub before, Polyphase.padded_natCast, List.getD_eq_getElem?_getD,
        Option.bind_some]
      cases here : src[newest - j]? with
      | none => simp [here]
      | some x => simp [here]
    · rw [Polyphase.padded_of_neg _ (by omega), zero_mul]
      rfl
  rw [edge, mapM_eq_map term]
  simp only [Option.bind_eq_bind, Option.bind_some, pure, sum_filterMap_id, List.map_map,
    Function.comp_def, product, sum_map_range]
  rfl

theorem interior_eq {p : Prototype R} {r : Nat} {taps : List R} (branch : Branch p r taps)
    {src : List R} {newest : Nat} (full : branchTaps - 1 ≤ newest) (inside : newest < src.length) :
    interior src taps newest = some (windowed p src newest r) := by
  have start : checkedSub (newest + 1) branchTaps = some (newest + 1 - branchTaps) :=
    if_pos (by omega)
  have cut : slice src (newest + 1 - branchTaps) (newest + 1) =
      some ((src.take (newest + 1)).drop (newest + 1 - branchTaps)) := if_pos ⟨by omega, inside⟩
  have products : ((src.take (newest + 1)).drop (newest + 1 - branchTaps)).zipWith (· * ·) taps =
      (List.range branchTaps).map fun i => src.getD (newest + 1 - branchTaps + i) 0 *
        p.taps.getD (r + factorL * (branchTaps - 1 - i)) 0 := by
    have positive : 0 < branchTaps := by decide
    apply List.ext_getElem
    · simp only [List.length_zipWith, List.length_drop, List.length_take, branch.length,
        List.length_map, List.length_range]
      omega
    intro i left right
    have below : i < branchTaps := by simpa using right
    have tap := branch.tap (branchTaps - 1 - i) (by omega)
    rw [show branchTaps - 1 - (branchTaps - 1 - i) = i by omega] at tap
    have tap := (List.getElem?_eq_some_iff.mp tap).2
    simp only [List.getElem_zipWith, List.getElem_drop, List.getElem_take, List.getElem_map,
      List.getElem_range, tap]
    rw [List.getD_eq_getElem src _ (by omega)]
  simp only [interior, start, cut, Option.bind_eq_bind, Option.bind_some, pure, products,
    sum_map_range]
  rw [windowed, Polyphase.window, ← Finset.sum_range_reflect]
  refine congrArg some (Finset.sum_congr rfl fun j member => ?_)
  have below : j < branchTaps := Finset.mem_range.mp member
  have sample : newest + 1 - branchTaps + (branchTaps - 1 - j) = newest - j := by omega
  have tap : branchTaps - 1 - (branchTaps - 1 - j) = j := by omega
  rw [sample, tap, ← Nat.cast_sub (by omega), Polyphase.padded_natCast]

theorem accumulated_eq {p : Prototype R} {r : Nat} {taps : List R} (branch : Branch p r taps)
    (src : List R) (newest : Nat) :
    accumulated src taps newest = some (windowed p src newest r) := by
  unfold accumulated
  split
  · rename_i within
    exact interior_eq branch within.1 within.2
  · exact edge_eq branch src newest

/-- Output frame `m` of the plain filter: `∑ k, x[k] * p[147 * m - 320 * k]`. -/
abbrev plain (p : Prototype R) (src : List R) (m : Nat) : R :=
  Polyphase.fir factorL factorM p.taps src m

theorem fillFrom_eq (p : Prototype R) (src : List R) (count m : Nat) :
    fillFrom src p.branches count (Polyphase.newest factorL factorM m)
        (Polyphase.phase factorL factorM m) =
      some ((List.range' m count).map (plain p src)) := by
  induction count generalizing m with
  | zero => rfl
  | succ count ih =>
      obtain ⟨taps, here, branch⟩ := p.branch (Polyphase.phase_lt (by decide) factorM m)
      have sample : plain p src m = windowed p src (Polyphase.newest factorL factorM m)
          (Polyphase.phase factorL factorM m) :=
        Polyphase.fir_eq_window (by decide) p.length factorM src m
      have next := Polyphase.next_phase (show factorM < factorL by decide) m
      have rest := ih (m + 1)
      rw [List.range'_succ, List.map_cons, sample]
      simp only [fillFrom, here, accumulated_eq branch, Option.bind_eq_bind, Option.bind_some]
      split at next
      · rename_i carries
        obtain ⟨newest, phase⟩ := Prod.mk.inj next
        rw [newest, phase] at rest
        rw [if_pos carries, rest]
        rfl
      · rename_i stays
        obtain ⟨newest, phase⟩ := Prod.mk.inj next
        rw [newest, phase] at rest
        rw [if_neg stays, rest]
        rfl

theorem fill_eq (p : Prototype R) (src : List R) (m0 frames : Nat) :
    fill src m0 frames p.branches = some ((List.range' m0 frames).map (plain p src)) :=
  fillFrom_eq p src frames m0

def Cuts (ranges : List (Nat × Nat)) (total : Nat) : Prop :=
  (ranges.flatMap fun range => List.range' range.1 range.2) = List.range total

theorem fillRanges_eq (p : Prototype R) (src : List R) {ranges : List (Nat × Nat)} {total : Nat}
    (cuts : Cuts ranges total) :
    fillRanges src p.branches ranges = some ((List.range total).map (plain p src)) := by
  have pieces : ∀ range ∈ ranges, fill src range.1 range.2 p.branches =
      some ((List.range' range.1 range.2).map (plain p src)) := fun range _ => fill_eq p src _ _
  rw [fillRanges, mapM_eq_map pieces, ← cuts, List.map_flatMap, List.flatMap_def]
  rfl

omit [Semiring R] in
theorem divCeil_spec {a b : Nat} (positive : 0 < b) : a ≤ divCeil a b * b := by
  have whole := Nat.div_add_mod (a + b - 1) b
  have rest := Nat.mod_lt (a + b - 1) positive
  rw [divCeil, Nat.mul_comm]
  omega

theorem chunks_range (total chunk count : Nat) :
    ((List.range count).flatMap fun i =>
      List.range' (i * chunk) (min chunk (total - i * chunk))) =
        List.range (min (count * chunk) total) := by
  induction count with
  | zero => simp
  | succ count ih =>
      rw [List.range_succ, List.flatMap_append, ih, List.flatMap_singleton, List.range_eq_range',
        List.range_eq_range']
      rcases Nat.le_total total (count * chunk) with done | more
      · have nothing : total - count * chunk = 0 := by omega
        have past : total ≤ (count + 1) * chunk := by
          rw [Nat.succ_mul]
          omega
        simp [nothing, done, past]
      · have begun : min (count * chunk) total = count * chunk := Nat.min_eq_left more
        have joined : count * chunk + min chunk (total - count * chunk) =
            min ((count + 1) * chunk) total := by
          rw [Nat.succ_mul]
          omega
        have append : List.range' 0 (count * chunk) ++
            List.range' (0 + count * chunk) (min chunk (total - count * chunk)) = _ :=
          List.range'_append_1
        rw [Nat.zero_add, joined] at append
        rw [begun, append]

theorem chunks_cuts {total chunk : Nat} (positive : 0 < chunk) :
    Cuts (chunks total chunk) total := by
  have all : min (divCeil total chunk * chunk) total = total :=
    Nat.min_eq_right (divCeil_spec positive)
  rw [Cuts, chunks, List.flatMap_map, chunks_range, all]

theorem resample_eq (p : Prototype R) (par : Nat) (audio : Audio R) :
    resample p par audio = some ⟨audio.data.map fun src =>
      (List.range (outFrames audio.frames)).map (plain p src), outRate⟩ := by
  have planes : ∀ src ∈ audio.data, fillRanges src p.branches
      (chunks (outFrames audio.frames) (max (divCeil (outFrames audio.frames)
        (max (divCeil par (max audio.channels 1)) 1)) 1)) =
      some ((List.range (outFrames audio.frames)).map (plain p src)) :=
    fun src _ => fillRanges_eq p src (chunks_cuts (by omega))
  simp only [resample]
  rw [mapM_eq_map planes]
  rfl

/-- The resampler is the plain filter however its output is cut, its two paths agree where
both apply, and it never reads outside the signal or the taps. -/
theorem resample_is_plain (p : Prototype R) (par : Nat) (audio : Audio R) :
    resample p par audio = some ⟨audio.data.map fun src =>
        (List.range (outFrames audio.frames)).map (plain p src), outRate⟩ ∧
      (∀ src ranges, Cuts ranges (outFrames src.length) →
        fillRanges src p.branches ranges =
          some ((List.range (outFrames src.length)).map (plain p src))) ∧
      ∀ taps ∈ p.branches, ∀ src newest, branchTaps - 1 ≤ newest → newest < src.length →
        ∃ sample, interior src taps newest = some sample ∧ edge src taps newest = some sample := by
  refine ⟨resample_eq p par audio, fun src ranges cuts => fillRanges_eq p src cuts, ?_⟩
  intro taps member src newest full inside
  obtain ⟨r, -, branch⟩ := mem_branches member
  exact ⟨_, interior_eq branch full inside, edge_eq branch src newest⟩

end Stemd.Core.Mode1

namespace Stemd.Core

structure Filters (F : Type) where
  general : Resampler F
  mode1 : Mode1.Prototype F
  par : Nat

inductive ConvertError where
  | rate (error : RateError)
  /-- Mode 1 converts 44100 to 96000 Hz and nothing else. -/
  | onlyPair (source target : UInt32)
  | panicked
  deriving DecidableEq, Repr

variable {F : Type} [Semiring F]

/-- Convert to a rate through the filter a mode names. -/
def toRateWith (filters : Filters F) (audio : Audio F) (target : UInt32) (mode : DspMode) :
    Except ConvertError (Audio F) :=
  if audio.sampleRate = target ∨ audio.frames = 0 then .ok audio
  else if target = 0 then .error (.rate .zeroTarget)
  else match mode with
    | .general => (toRate filters.general audio target).mapError .rate
    | .mode1 =>
        if audio.sampleRate = Mode1.inRate ∧ target = Mode1.outRate then
          match Mode1.resample filters.mode1 filters.par audio with
          | some converted => .ok converted
          | none => .error .panicked
        else .error (.onlyPair audio.sampleRate target)

theorem toRateWith_native (filters : Filters F) (audio : Audio F) (mode : DspMode) :
    toRateWith filters audio audio.sampleRate mode = .ok audio := if_pos (.inl rfl)

theorem toRateWith_general (filters : Filters F) (audio : Audio F) (target : UInt32) :
    toRateWith filters audio target .general =
      (toRate filters.general audio target).mapError .rate := by
  unfold toRateWith toRate
  split
  · rfl
  · split <;> rfl

theorem toRateWith_ne_panicked (filters : Filters F) (audio : Audio F) (target : UInt32)
    (mode : DspMode) : toRateWith filters audio target mode ≠ .error .panicked := by
  cases mode with
  | general =>
      rw [toRateWith_general]
      cases toRate filters.general audio target <;> simp [Except.mapError]
  | mode1 =>
      unfold toRateWith
      rw [(Mode1.resample_eq filters.mode1 filters.par audio)]
      split
      · simp
      split
      · simp
      dsimp only
      split <;> simp

end Stemd.Core
