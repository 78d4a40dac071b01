import Mathlib
import Stemd.Mlx.Bands
import Stemd.Mlx.Layers
import Stemd.Semantics.Sequences

/-! The attention of the band-split model, and the two ways in which position enters it.

Rotary turns a query and a key by the angle of their place. Polar keeps a magnitude of each and
puts that at the angle of its place, a key's a little further on. Either way a query and a key
meet under the difference of their places only. -/

set_option autoImplicit false

namespace Stemd.Mlx.Roformer

open Stemd.Semantics

structure Attending (K : Type) where
  softmax : List K → List K
  softmax_length : ∀ values, (softmax values).length = values.length
  cos : K → K
  sin : K → K
  exp : K → K
  log1p : K → K
  sqrt : K → K
  pi : K
  /-- `ROPE_BASE ^ (-2 pair / dims)`, given the dims and the pair. -/
  rotary : Nat → Nat → K

structure Pope (K : Type) where
  heads : Nat
  dimHead : Nat
  invFreqs : Tensor K
  invFreqsShape : invFreqs.shape = [dimHead]
  /-- The learned phase offset on the keys. -/
  bias : Tensor K
  biasShape : bias.shape = [heads, dimHead]

/-- Attention with a position, and a gate per head. Rotary when it is not polar. -/
structure Attention (K : Type) where
  dim : Nat
  heads : Nat
  dimHead : Nat
  norm : RmsNorm K
  qkv : Linear K
  gates : Linear K
  out : Linear K
  pope : Option (Pope K)
  normFits : norm.width = dim
  qkvFits : qkv.chin = dim ∧ qkv.chout = heads * dimHead * 3
  gatesFits : gates.chin = dim ∧ gates.chout = heads
  outFits : out.chin = heads * dimHead ∧ out.chout = dim
  popeFits : ∀ p, pope = some p → p.heads = heads ∧ p.dimHead = dimHead

section

variable {K : Type} [Field K]

/-- `log(1 + exp(x))`, in the form that does not overflow. -/
def softplus [LinearOrder K] (attending : Attending K) (v : K) : K :=
  max v 0 + attending.log1p (attending.exp (-|v|))

/-- A row of pairs, each turned by its own frequency times the place. -/
def ropeRow (attending : Attending K) (dims place : Nat) (values : List K) : List K :=
  (List.range dims).map fun d =>
    let angle := (place : K) * attending.rotary dims (d / 2)
    if d % 2 = 0 then
      values.getD d 0 * attending.cos angle - values.getD (d + 1) 0 * attending.sin angle
    else values.getD (d - 1) 0 * attending.sin angle + values.getD d 0 * attending.cos angle

/-- `fast::rope` with interleaved pairs, over the whole depth and from place 0 on. -/
def rope (attending : Attending K) (dims : Nat) (x : Tensor K) : Tensor K :=
  x.mapTokens dims (ropeRow attending dims)

/-- Magnitudes put at their angles, cosine and sine in turns. -/
def polar (attending : Attending K) (magnitude angle : Tensor K) :
    Except SpectralError (Tensor K) := do
  let real ← fitting (magnitude.zipWith (· * ·) (angle.map attending.cos))
  let imag ← fitting (magnitude.zipWith (· * ·) (angle.map attending.sin))
  let stacked ← fitting (Tensor.stackAxis [real, imag] real.shape.length)
  let two :: last :: lead := stacked.shape.reverse | throw .array
  fitting (stacked.reshape (lead.reverse ++ [last * two]))

variable [LinearOrder K]

def Pope.clamped (attending : Attending K) (v : K) : K := min (max v (-(2.0 * attending.pi))) 0

/-- `[B, heads, N, dim_head]` twice, to `[B, heads, N, 2 * dim_head]` each. -/
def Pope.apply (attending : Attending K) (pope : Pope K) (q k : Tensor K) (positions : Nat) :
    Except SpectralError (Tensor K × Tensor K) := do
  let arange : Tensor K := ⟨[positions], (List.range positions).map fun n : Nat => (n : K), by simp⟩
  let steps ← fitting (arange.reshape [positions, 1])
  let inv ← fitting (pope.invFreqs.reshapeInfer [1] [])
  let phi ← fitting (steps.zipWith (· * ·) inv)
  let bias := pope.bias.map (Pope.clamped attending)
  let phis ← fitting (phi.reshapeInfer [1, positions] [])
  let offsets ← fitting (bias.reshapeInfer [] [1, pope.bias.shape.getD 1 0])
  let psi ← fitting (phis.zipWith (· + ·) offsets)
  let q ← polar attending (q.map (softplus attending)) phi
  let k ← polar attending (k.map (softplus attending)) psi
  return (q, k)

def Attention.attended (attending : Attending K) (attention : Attention K) (q k v : Tensor K)
    (positions : Nat) : Except SpectralError (Tensor K) :=
  let scale := 1 / attending.sqrt (attention.dimHead : K)
  match attention.pope with
  | none =>
      fitting (Tensor.attend attending.softmax scale (rope attending attention.dimHead q)
        (rope attending attention.dimHead k) v)
  | some pope => do
      let (q, k) ← pope.apply attending q k positions
      fitting (Tensor.attend attending.softmax scale q k v)

def Attention.forward (kernels : Kernels K) (attending : Attending K) (attention : Attention K)
    (x : Tensor K) : Except SpectralError (Tensor K) := do
  let normed ← attention.norm.forward kernels x
  let batch :: positions :: _ := normed.shape | throw .array
  -- One matrix for all three, laid out query-major then head then depth.
  let qkv ← attention.qkv.forward normed
  let qkv ← fitting (qkv.reshape [batch, positions, 3, attention.heads, attention.dimHead])
  let qkv ← fitting (qkv.transposeAxes [2, 0, 3, 1, 4])
  let q ← fitting (qkv.select 0 0)
  let k ← fitting (qkv.select 0 1)
  let v ← fitting (qkv.select 0 2)
  let attended ← attention.attended attending q k v positions
  -- Each head scales its own rows.
  let gates := (← attention.gates.forward normed).map kernels.sigmoid
  let gates ← fitting (gates.transposeAxes [0, 2, 1])
  let gates ← fitting (gates.reshape [batch, attention.heads, positions, 1])
  let attended ← fitting (attended.zipWith (· * ·) gates)
  let merged ← fitting (attended.transposeAxes [0, 2, 1, 3])
  let merged ← fitting (merged.reshape [batch, positions, attention.heads * attention.dimHead])
  attention.out.forward merged

def Linear.apply (linear : Linear K) (values : List K) : List K :=
  (List.range linear.chout).map (linear.value values)

def RmsNorm.apply (kernels : Kernels K) (norm : RmsNorm K) (values : List K) : List K :=
  kernels.rmsNorm values norm.gamma.data

def polarRow (attending : Attending K) (magnitudes angles : List K) : List K :=
  (List.zipWith (fun r angle => [r * attending.cos angle, r * attending.sin angle]) magnitudes
    angles).flatten

def Pope.angles (pope : Pope K) (place : Nat) : List K :=
  (pope.invFreqs.row []).map fun f => (place : K) * f

def Pope.offsets (attending : Attending K) (pope : Pope K) (h : Nat) : List K :=
  (pope.bias.row [h]).map (Pope.clamped attending)

def Attention.query (attending : Attending K) (attention : Attention K) (place : Nat)
    (values : List K) : List K :=
  match attention.pope with
  | none => ropeRow attending attention.dimHead place values
  | some pope => polarRow attending (values.map (softplus attending)) (pope.angles place)

def Attention.key (attending : Attending K) (attention : Attention K) (h place : Nat)
    (values : List K) : List K :=
  match attention.pope with
  | none => ropeRow attending attention.dimHead place values
  | some pope => polarRow attending (values.map (softplus attending))
      (List.zipWith (· + ·) (pope.angles place) (pope.offsets attending h))

def Attention.head (attending : Attending K) (attention : Attention K)
    (projected : List (List K)) (h : Nat) : List (List K) :=
  let part := fun p => projected.map (slot attention.dimHead (p * attention.heads + h))
  let keys := (part 1).mapIdx (attention.key attending h)
  ((part 0).mapIdx (attention.query attending)).map
    (attendRow attending.softmax (1 / attending.sqrt (attention.dimHead : K)) keys (part 2)
      attention.dimHead)

def Attention.run (kernels : Kernels K) (attending : Attending K) (attention : Attention K)
    (tokens : List (List K)) : List (List K) :=
  let normed := tokens.map (attention.norm.apply kernels)
  let projected := normed.map attention.qkv.apply
  let gates := normed.map fun token => (attention.gates.apply token).map kernels.sigmoid
  (List.range tokens.length).map fun n => attention.out.apply
    ((List.range attention.heads).map fun h =>
      ((attention.head attending projected h).getD n []).map
        (· * (gates.getD n []).getD h 0)).flatten

omit [LinearOrder K] in
theorem Linear.apply_length (linear : Linear K) (values : List K) :
    (linear.apply values).length = linear.chout := by
  rw [Linear.apply, List.length_map, List.length_range]

omit [LinearOrder K] in
theorem Linear.forward_row (linear : Linear K) {x : Tensor K} (lead : List Nat)
    (shape : x.shape = lead ++ [linear.chin]) :
    ∃ y, linear.forward x = .ok y ∧ y.shape = lead ++ [linear.chout] ∧
      ∀ i, Within i lead → y.row i = linear.apply (x.row i) := by
  obtain ⟨y, forward, yShape, entry⟩ := linear.forward_spec lead shape
  refine ⟨y, forward, yShape, fun i outer => ?_⟩
  apply Tensor.row_eq_of lead linear.chout yShape (linear.apply_length _)
  intro t below
  rw [entry i t outer below, Linear.apply, List.getD_eq_getElem _ _ (by simpa using below),
    List.getElem_map, List.getElem_range]

omit [LinearOrder K] in
theorem ropeRow_length (attending : Attending K) (dims place : Nat) (values : List K) :
    (ropeRow attending dims place values).length = dims := by
  rw [ropeRow, List.length_map, List.length_range]

omit [LinearOrder K] in
theorem polarRow_length (attending : Attending K) {magnitudes angles : List K} {d : Nat}
    (left : magnitudes.length = d) (right : angles.length = d) :
    (polarRow attending magnitudes angles).length = d * 2 := by
  have pairs : ∀ pair ∈ List.zipWith (fun r angle => [r * attending.cos angle,
      r * attending.sin angle]) magnitudes angles, pair.length = 2 := by
    intro pair member
    obtain ⟨n, below, rfl⟩ := List.mem_iff_getElem.mp member
    rw [List.getElem_zipWith]
    rfl
  rw [polarRow, List.length_flatten, List.map_congr_left pairs, List.map_const',
    List.sum_replicate_nat, List.length_zipWith, left, right, min_self]

omit [LinearOrder K] in
theorem polar_spec (attending : Attending K) {magnitude angle : Tensor K} (lead tail : List Nat)
    (d : Nat) (left : magnitude.shape = lead ++ tail ++ [d]) (right : angle.shape = tail ++ [d]) :
    ∃ y, polar attending magnitude angle = .ok y ∧ y.shape = lead ++ tail ++ [d * 2] ∧
      ∀ i j, Within i lead → Within j tail →
        y.row (i ++ j) = polarRow attending (magnitude.row (i ++ j)) (angle.row j) := by
  obtain ⟨real, realIs, realShape, realRow⟩ := Tensor.row_zipWith_tail (· * ·) lead tail d left
    (show (angle.map attending.cos).shape = tail ++ [d] from right)
  obtain ⟨imag, imagIs, imagShape, imagRow⟩ := Tensor.row_zipWith_tail (· * ·) lead tail d left
    (show (angle.map attending.sin).shape = tail ++ [d] from right)
  obtain ⟨stacked, y, stacking, stackedShape, reshaped, yShape, rows⟩ :=
    Tensor.stackLast_spec (lead ++ tail) d realShape imagShape
  refine ⟨y, ?_, yShape, fun i j outer inner => ?_⟩
  · have rank : real.shape.length = (lead ++ tail).length + 1 := by
      rw [realShape]
      simp [Nat.add_assoc]
    have last : stacked.shape.reverse = 2 :: d :: (lead ++ tail).reverse := by
      rw [stackedShape]
      simp
    have back : (lead ++ tail).reverse.reverse ++ [d * 2] = lead ++ tail ++ [d * 2] := by
      rw [List.reverse_reverse]
    simp only [polar, realIs, imagIs, rank, stacking, last, back, reshaped, fitting, bind,
      Except.bind]
  · rw [rows _ (within_append outer inner), realRow i j outer inner, imagRow i j outer inner,
      Tensor.row_map _ tail d right inner, Tensor.row_map _ tail d right inner, polarRow]
    congr 1
    apply List.ext_getElem (by simp)
    intro n before after
    simp

/-- The angles of the queries are those of their places, and of the keys those of their places
and heads. -/
theorem Pope.angles_spec (attending : Attending K) (pope : Pope K) {N : Nat} (places : 0 < N)
    (deep : 0 < pope.dimHead) :
    ∃ (arange steps inv phi phis offsets psi : Tensor K),
      arange = ⟨[N], (List.range N).map fun n : Nat => (n : K), by simp⟩ ∧
      arange.reshape [N, 1] = some steps ∧ pope.invFreqs.reshapeInfer [1] [] = some inv ∧
      steps.zipWith (· * ·) inv = some phi ∧ phi.reshapeInfer [1, N] [] = some phis ∧
      (pope.bias.map (Pope.clamped attending)).reshapeInfer [] [1, pope.bias.shape.getD 1 0] =
        some offsets ∧
      phis.zipWith (· + ·) offsets = some psi ∧ phi.shape = [N, pope.dimHead] ∧
      psi.shape = [pope.heads, N, pope.dimHead] ∧ ∀ n < N, phi.row [n] = pope.angles n ∧
        ∀ h < pope.heads,
          psi.row [h, n] = List.zipWith (· + ·) (pope.angles n) (pope.offsets attending h) := by
  obtain ⟨arange, arangeIs⟩ : ∃ arange : Tensor K, arange =
    ⟨[N], (List.range N).map fun n : Nat => (n : K), by simp⟩ := ⟨_, rfl⟩
  have arangeShape : arange.shape = [N] := by rw [arangeIs]
  have arangeEntry : ∀ n < N, arange.get [n] = n := by
    intro n below
    subst arangeIs
    simp only [Tensor.get, position, List.prod_nil, Nat.mul_one, Nat.add_zero]
    rw [List.getD_eq_getElem _ _ (by simpa using below)]
    simp
  generalize deepIs : pope.dimHead = D at *
  have freqsShape : pope.invFreqs.shape = [D] := pope.invFreqsShape.trans (by rw [deepIs])
  have biasShape : pope.bias.shape = [pope.heads, D] := pope.biasShape.trans (by rw [deepIs])
  obtain ⟨steps, stepped, stepsShape, stepsEntry⟩ :=
    arange.reshape_spec [N, 1] (by rw [arangeShape]; simp)
  obtain ⟨inv, inverse, invShape, invEntry⟩ :=
    pope.invFreqs.reshape_spec [1, D] (by rw [freqsShape]; simp)
  have fits : Tensor.broadcast steps.shape inv.shape = some [N, D] := by
    rw [stepsShape, invShape]
    simp [Tensor.broadcast, Tensor.stretch_one_left, Tensor.stretch_one_right,
      Tensor.stretch_nil]
  obtain ⟨phi, multiplied, phiShape, phiEntry⟩ := Tensor.zipWith_spec (· * ·) fits
  obtain ⟨phis, unfolded, phisShape, phisEntry⟩ :=
    phi.reshape_spec [1, N, D] (by rw [phiShape]; simp)
  obtain ⟨offsets, parted, offsetsShape, offsetsEntry⟩ :=
    (pope.bias.map (Pope.clamped attending)).reshape_spec [pope.heads, 1, D]
      (by rw [Tensor.map_shape, biasShape]; simp)
  have fits' : Tensor.broadcast phis.shape offsets.shape = some [pope.heads, N, D] := by
    rw [phisShape, offsetsShape]
    simp [Tensor.broadcast, Tensor.stretch_one_left, Tensor.stretch_one_right,
      Tensor.stretch_same, Tensor.stretch_nil]
  obtain ⟨psi, added, psiShape, psiEntry⟩ := Tensor.zipWith_spec (· + ·) fits'
  have phiRow : ∀ n < N, phi.row [n] = pope.angles n := by
    intro n place
    rw [Tensor.row_eq [N] D phiShape, Pope.angles, Tensor.row_eq [] D freqsShape, List.map_map]
    apply List.map_congr_left
    intro t member
    have below := List.mem_range.mp member
    have first : position [N, 1] [n, 0] = position arange.shape [n] := by
      rw [arangeShape]
      simp [position]
    have second : position [1, D] [0, t] = position pope.invFreqs.shape [t] := by
      rw [freqsShape]
      simp [position]
    have alignedSteps : Tensor.align [N, 1] [n, t] = [n, 0] := by
      simp [Tensor.align, Tensor.align_here place]
    have alignedInv : Tensor.align [1, D] [n, t] = [0, t] := by
      simp [Tensor.align, Tensor.align_here below]
    rw [List.singleton_append, phiEntry [n, t] (.cons place (.cons below .nil)), stepsShape,
      invShape, alignedSteps, alignedInv, stepsEntry _ _ first, invEntry _ _ second,
      arangeEntry n place]
    rfl
  refine ⟨arange, steps, inv, phi, phis, offsets, psi, arangeIs, stepped, ?_, multiplied, ?_, ?_,
    added, phiShape, psiShape, fun n place => ⟨phiRow n place, fun h head => ?_⟩⟩
  · rw [Tensor.reshapeInfer_eq _ (n := D) (by simp) (by rw [freqsShape]; simp)]
    exact inverse
  · rw [Tensor.reshapeInfer_eq _ (n := D) (by simpa using places) (by rw [phiShape]; simp)]
    exact unfolded
  · have depth : pope.bias.shape.getD 1 0 = D := by rw [biasShape]; rfl
    rw [depth, Tensor.reshapeInfer_eq _ (n := pope.heads) (by simpa using deep)
      (by rw [Tensor.map_shape, biasShape]; simp [Nat.mul_comm])]
    exact parted
  · have length : (pope.angles n).length = D := by
      rw [Pope.angles, List.length_map, Tensor.row_length [] D freqsShape]
    have length' : (pope.offsets attending h).length = D := by
      rw [Pope.offsets, List.length_map, Tensor.row_length [pope.heads] D biasShape]
    have turned : (pope.bias.map (Pope.clamped attending)).row [h] = pope.offsets attending h :=
      Tensor.row_map _ [pope.heads] D biasShape (.cons head .nil)
    apply Tensor.row_eq_of [pope.heads, N] D psiShape
      (by rw [List.length_zipWith, length, length', min_self])
    intro t below
    have first : position [1, N, D] [0, n, t] = position phi.shape [n, t] := by
      rw [phiShape]
      simp [position]
    have second : position [pope.heads, 1, D] [h, 0, t] =
        position (pope.bias.map (Pope.clamped attending)).shape [h, t] := by
      rw [Tensor.map_shape, biasShape]
      simp [position]
    have alignedPhi : Tensor.align [1, N, D] [h, n, t] = [0, n, t] := by
      simp [Tensor.align, Tensor.align_here place, Tensor.align_here below]
    have alignedOffsets : Tensor.align [pope.heads, 1, D] [h, n, t] = [h, 0, t] := by
      simp [Tensor.align, Tensor.align_here head, Tensor.align_here below]
    have left := Tensor.row_getD [N] D phiShape [n] below
    have right := Tensor.row_getD [pope.heads] D
      (show (pope.bias.map (Pope.clamped attending)).shape = [pope.heads] ++ [D] from biasShape)
      [h] below
    rw [phiRow n place] at left
    rw [turned] at right
    rw [List.cons_append, List.singleton_append,
      psiEntry [h, n, t] (.cons head (.cons place (.cons below .nil))), phisShape, offsetsShape,
      alignedPhi, alignedOffsets, phisEntry _ _ first, offsetsEntry _ _ second]
    rw [List.getD_eq_getElem _ _ (by rwa [List.length_zipWith, length, length', min_self]),
      List.getElem_zipWith, ← List.getD_eq_getElem _ 0 (show t < (pope.angles n).length by
        rwa [length]), ← List.getD_eq_getElem _ 0
        (show t < (pope.offsets attending h).length by rwa [length']), left, right]
    rfl
theorem Pope.apply_spec (attending : Attending K) (pope : Pope K) {q k : Tensor K} {B N : Nat}
    (queries : q.shape = [B, pope.heads, N, pope.dimHead])
    (keys : k.shape = [B, pope.heads, N, pope.dimHead]) (places : 0 < N)
    (deep : 0 < pope.dimHead) :
    ∃ q' k', pope.apply attending q k N = .ok (q', k') ∧
      q'.shape = [B, pope.heads, N, pope.dimHead * 2] ∧
      k'.shape = [B, pope.heads, N, pope.dimHead * 2] ∧
      ∀ b h, b < B → h < pope.heads →
        q'.seq [b, h] = (q.seq [b, h]).mapIdx (fun n values =>
          polarRow attending (values.map (softplus attending)) (pope.angles n)) ∧
        k'.seq [b, h] = (k.seq [b, h]).mapIdx fun n values =>
          polarRow attending (values.map (softplus attending))
            (List.zipWith (· + ·) (pope.angles n) (pope.offsets attending h)) := by
  obtain ⟨arange, steps, inv, phi, phis, offsets, psi, arangeIs, stepped, inverse, multiplied,
    unfolded, parted, added, phiShape, psiShape, angles⟩ :=
    pope.angles_spec attending places deep
  obtain ⟨q', queried, queriedShape, queriedRow⟩ :=
    polar_spec attending [B, pope.heads] [N] pope.dimHead
      (show (q.map (softplus attending)).shape = _ from queries) phiShape
  obtain ⟨k', keyed, keyedShape, keyedRow⟩ :=
    polar_spec attending [B] [pope.heads, N] pope.dimHead
      (show (k.map (softplus attending)).shape = _ from keys) psiShape
  refine ⟨q', k', ?_, queriedShape, keyedShape, fun b h item head => ⟨?_, ?_⟩⟩
  · simp only [Pope.apply, ← arangeIs, stepped, inverse, multiplied, unfolded, parted, added,
      queried, keyed, fitting, bind, Except.bind]
    rfl
  · apply Tensor.seq_of_places [B, pope.heads] N _ _ queries queriedShape
    intro n place
    have here : Within [b, h, n] [B, pope.heads, N] := .cons item (.cons head (.cons place .nil))
    refine (queriedRow [b, h] [n] (.cons item (.cons head .nil)) (.cons place .nil)).trans ?_
    rw [(angles n place).1]
    exact congrArg (polarRow attending · _)
      (Tensor.row_map _ [B, pope.heads, N] _ queries here)
  · apply Tensor.seq_of_places [B, pope.heads] N _ _ keys keyedShape
    intro n place
    have here : Within [b, h, n] [B, pope.heads, N] := .cons item (.cons head (.cons place .nil))
    refine (keyedRow [b] [h, n] (.cons item .nil) (.cons head (.cons place .nil))).trans ?_
    rw [(angles n place).2 h head]
    exact congrArg (polarRow attending · _) (Tensor.row_map _ [B, pope.heads, N] _ keys here)

theorem Attention.attended_spec (attending : Attending K) (attention : Attention K)
    {q k v : Tensor K} {B N : Nat}
    (queries : q.shape = [B, attention.heads, N, attention.dimHead])
    (keys : k.shape = [B, attention.heads, N, attention.dimHead])
    (values : v.shape = [B, attention.heads, N, attention.dimHead]) (places : 0 < N)
    (deep : 0 < attention.dimHead) :
    ∃ y, attention.attended attending q k v N = .ok y ∧
      y.shape = [B, attention.heads, N, attention.dimHead] ∧
      ∀ b h, b < B → h < attention.heads → y.seq [b, h] =
        ((q.seq [b, h]).mapIdx (attention.query attending)).map
          (attendRow attending.softmax (1 / attending.sqrt (attention.dimHead : K))
            ((k.seq [b, h]).mapIdx (attention.key attending h)) (v.seq [b, h])
            attention.dimHead) := by
  unfold Attention.attended Attention.query Attention.key
  cases scheme : attention.pope with
  | none =>
      obtain ⟨turnedShape, turned⟩ := Tensor.mapTokens_spec [B, attention.heads] N _ queries
        attention.dimHead (ropeRow attending attention.dimHead) fun _ _ _ => ropeRow_length _ _ _ _
      obtain ⟨turnedShape', turned'⟩ := Tensor.mapTokens_spec [B, attention.heads] N _ keys
        attention.dimHead (ropeRow attending attention.dimHead) fun _ _ _ => ropeRow_length _ _ _ _
      obtain ⟨y, attended, yShape, seqs⟩ := Tensor.attend_spec attending.softmax_length
        (1 / attending.sqrt (attention.dimHead : K)) [B, attention.heads] turnedShape turnedShape'
        values
      refine ⟨y, ?_, yShape, fun b h item head => ?_⟩
      · simp only [rope, attended, fitting]
      · have here : Within [b, h] [B, attention.heads] := .cons item (.cons head .nil)
        rw [seqs _ here, turned _ here, turned' _ here]
  | some pope =>
      obtain ⟨heads, depth⟩ := attention.popeFits pope scheme
      rw [← heads, ← depth] at queries keys
      obtain ⟨q', k', applied, queriedShape, keyedShape, polars⟩ :=
        pope.apply_spec attending queries keys places (by rwa [depth])
      rw [heads] at queriedShape keyedShape polars
      obtain ⟨y, attended, yShape, seqs⟩ := Tensor.attend_spec attending.softmax_length
        (1 / attending.sqrt (attention.dimHead : K)) [B, attention.heads] queriedShape keyedShape
        values
      refine ⟨y, ?_, yShape, fun b h item head => ?_⟩
      · simp only [applied, attended, fitting, bind, Except.bind]
      · have here : Within [b, h] [B, attention.heads] := .cons item (.cons head .nil)
        rw [seqs _ here, (polars b h item head).1, (polars b h item head).2]
omit [LinearOrder K] in
theorem parts_spec {x : Tensor K} {B N H D : Nat} (shape : x.shape = [B, N, H * D * 3]) :
    ∃ apart turned, x.reshape [B, N, 3, H, D] = some apart ∧
      apart.transposeAxes [2, 0, 3, 1, 4] = some turned ∧ ∀ p < 3,
        ∃ part, turned.select 0 p = some part ∧ part.shape = [B, H, N, D] ∧
          ∀ b h, b < B → h < H → part.seq [b, h] = (x.seq [b]).map (slot D (p * H + h)) := by
  obtain ⟨apart, reshaped, apartShape, apartEntry⟩ :=
    x.reshape_spec [B, N, 3, H, D] (by
      rw [shape]
      simp only [List.prod_cons, List.prod_nil]
      ring)
  have rank : apart.shape.length = 5 := by rw [apartShape]; rfl
  have order : [2, 0, 3, 1, 4].Perm (List.range apart.shape.length) := by
    rw [rank]
    decide
  obtain ⟨turned, transposed, turnedShape, turnedEntry⟩ := Tensor.transposeAxes_spec order
  have axes : [2, 0, 3, 1, 4].map (fun axis => apart.shape.getD axis 0) = [3, B, H, N, D] := by
    rw [apartShape]
    rfl
  rw [axes] at turnedShape turnedEntry
  refine ⟨apart, turned, reshaped, transposed, fun p small => ?_⟩
  obtain ⟨part, selected, partShape, partEntry⟩ :=
    Tensor.select_spec [] 3 [B, H, N, D] turnedShape small
  refine ⟨part, selected, partShape, fun b h item head => ?_⟩
  rw [Tensor.seq_eq [B] N _ shape, List.map_map]
  apply Tensor.seq_eq_map [B, H] N D partShape
  intro n token
  have wide : p * H + h < H * 3 := by
    have : (p + 1) * H ≤ 3 * H := Nat.mul_le_mul_right _ small
    rw [Nat.succ_mul] at this
    omega
  have length : (x.row [b, n]).length = H * 3 * D := by
    rw [Tensor.row_length [B, N] _ shape]
    ring
  apply Tensor.row_eq_of [B, H, N] D partShape (slot_length length wide)
  intro t below
  have inside : (p * H + h) * D + t < H * D * 3 := by
    have : (p * H + h + 1) * D ≤ H * 3 * D := Nat.mul_le_mul_right _ wide
    rw [Nat.succ_mul] at this
    have swap : H * 3 * D = H * D * 3 := by ring
    omega
  have place : position [B, N, 3, H, D] [b, n, p, h, t] =
      position x.shape [b, n, (p * H + h) * D + t] := by
    rw [shape]
    simp [position]
    ring
  have within : Within [b, h, n, t] [B, H, N, D] :=
    .cons item (.cons head (.cons token (.cons below .nil)))
  change part.get [b, h, n, t] = (slot D (p * H + h) (x.row [b, n])).getD t 0
  rw [slot_getD 0 _ below, Tensor.row_getD [B, N] _ shape [b, n] inside]
  exact (partEntry [] [b, h, n, t] .nil within).trans
    ((turnedEntry [p, b, h, n, t] (.cons small within)).trans (apartEntry _ _ place))

omit [LinearOrder K] in
theorem gated_spec {x gates : Tensor K} {B H N D : Nat} (shape : x.shape = [B, H, N, D])
    (gatesShape : gates.shape = [B, N, H]) :
    ∃ turned single y, gates.transposeAxes [0, 2, 1] = some turned ∧
      turned.reshape [B, H, N, 1] = some single ∧ x.zipWith (· * ·) single = some y ∧
      y.shape = [B, H, N, D] ∧ ∀ b h n, b < B → h < H → n < N →
        y.row [b, h, n] = (x.row [b, h, n]).map (· * (gates.row [b, n]).getD h 0) := by
  have rank : gates.shape.length = 3 := by rw [gatesShape]; rfl
  have order : [0, 2, 1].Perm (List.range gates.shape.length) := by
    rw [rank]
    decide
  obtain ⟨turned, transposed, turnedShape, turnedEntry⟩ := Tensor.transposeAxes_spec order
  have axes : [0, 2, 1].map (fun axis => gates.shape.getD axis 0) = [B, H, N] := by
    rw [gatesShape]
    rfl
  rw [axes] at turnedShape turnedEntry
  obtain ⟨single, reshaped, singleShape, singleEntry⟩ :=
    turned.reshape_spec [B, H, N, 1] (by rw [turnedShape]; simp)
  have fits : Tensor.broadcast x.shape single.shape = some [B, H, N, D] := by
    rw [shape, singleShape]
    simp [Tensor.broadcast, Tensor.stretch_one_right, Tensor.stretch_same, Tensor.stretch_nil]
  obtain ⟨y, multiplied, yShape, yEntry⟩ := Tensor.zipWith_spec (· * ·) fits
  refine ⟨turned, single, y, transposed, reshaped, multiplied, yShape,
    fun b h n item head token => ?_⟩
  have length := Tensor.row_length [B, H, N] D shape [b, h, n]
  apply Tensor.row_eq_of [B, H, N] D yShape (by rw [List.length_map, length])
  intro t below
  have within : Within [b, h, n, t] [B, H, N, D] :=
    .cons item (.cons head (.cons token (.cons below .nil)))
  have aligned : Tensor.align [B, H, N, 1] [b, h, n, t] = [b, h, n, 0] := by
    simp [Tensor.align, Tensor.align_here item, Tensor.align_here head, Tensor.align_here token]
  have place : position [B, H, N, 1] [b, h, n, 0] = position turned.shape [b, h, n] := by
    rw [turnedShape]
    simp [position]
  have inside : t < (x.row [b, h, n]).length := by rwa [length]
  rw [List.getD_eq_getElem _ _ (by rwa [List.length_map]), List.getElem_map,
    ← List.getD_eq_getElem _ 0 inside, Tensor.row_getD [B, H, N] D shape _ below,
    Tensor.row_getD [B, N] H gatesShape [b, n] head]
  refine (yEntry [b, h, n, t] within).trans ?_
  rw [shape, singleShape, Tensor.align_self within, aligned, singleEntry _ _ place]
  exact congrArg _ (turnedEntry [b, h, n] (.cons item (.cons head (.cons token .nil))))
/-- Attention is what `run` says, on the sequence of each item of the batch. -/
theorem Attention.forward_spec (kernels : Kernels K) (attending : Attending K)
    (attention : Attention K) {x : Tensor K} {B N : Nat} (shape : x.shape = [B, N, attention.dim])
    (places : 0 < N) (deep : 0 < attention.dimHead) :
    ∃ y, attention.forward kernels attending x = .ok y ∧ y.shape = [B, N, attention.dim] ∧
      ∀ b < B, y.seq [b] = attention.run kernels attending (x.seq [b]) := by
  obtain ⟨normed, norming, normedShape, normedRow⟩ :=
    RmsNorm.forward_spec kernels attention.norm (x := x) [B, N]
      (by rw [attention.normFits, shape]; rfl)
  rw [attention.normFits] at normedShape
  replace normedShape : normed.shape = [B, N, attention.dim] := normedShape
  obtain ⟨qkv, projecting, qkvShape, qkvRow⟩ := attention.qkv.forward_row (x := normed) [B, N]
    (by rw [normedShape, attention.qkvFits.1]; rfl)
  have projectedShape : qkv.shape = [B, N, attention.heads * attention.dimHead * 3] := by
    rw [qkvShape, attention.qkvFits.2]
    rfl
  obtain ⟨apart, turned, reshaped, transposed, parts⟩ := parts_spec projectedShape
  obtain ⟨q, queried, qShape, qSeq⟩ := parts 0 (by omega)
  obtain ⟨k, keyed, kShape, kSeq⟩ := parts 1 (by omega)
  obtain ⟨v, valued, vShape, vSeq⟩ := parts 2 (by omega)
  obtain ⟨attended, attending', attendedShape, attendedSeq⟩ :=
    attention.attended_spec attending qShape kShape vShape places deep
  obtain ⟨gates, opening, gatesShape, gatesRow⟩ := attention.gates.forward_row (x := normed) [B, N]
    (by rw [normedShape, attention.gatesFits.1]; rfl)
  rw [attention.gatesFits.2] at gatesShape
  obtain ⟨swapped, single, gated, swapping, singling, gating, gatedShape, gatedRow⟩ :=
    gated_spec attendedShape (show (gates.map kernels.sigmoid).shape = _ from gatesShape)
  obtain ⟨side, merged, turning, merging, mergedShape, mergedSeq⟩ :=
    Tensor.mergeHeads_spec gatedShape
  obtain ⟨y, leaving, yShape, yRow⟩ := attention.out.forward_row (x := merged) [B, N]
    (by rw [mergedShape, attention.outFits.1]; rfl)
  have outShape : y.shape = [B, N, attention.out.chout] := yShape
  rw [attention.outFits.2] at yShape
  refine ⟨y, ?_, yShape, fun b item => ?_⟩
  · simp only [Attention.forward, norming, normedShape, projecting, reshaped, transposed, queried,
      keyed, valued, attending', opening, swapping, singling, gating, turning, merging, leaving,
      fitting, bind, Except.bind]
  · have one : Within [b] [B] := .cons item .nil
    have normedSeq : normed.seq [b] = (x.seq [b]).map (attention.norm.apply kernels) :=
      Tensor.seq_of_rows [B] N _ _ shape normedShape (f := attention.norm.apply kernels) normedRow
        one
    have projectedSeq : qkv.seq [b] = (normed.seq [b]).map attention.qkv.apply :=
      Tensor.seq_of_rows [B] N _ _ normedShape qkvShape qkvRow one
    have heads : ∀ h < attention.heads,
        attended.seq [b, h] = attention.head attending (qkv.seq [b]) h := by
      intro h head
      rw [attendedSeq b h item head, qSeq b h item head, kSeq b h item head, vSeq b h item head]
      rfl
    have count : (x.seq [b]).length = N := Tensor.seq_length [B] N _ shape [b]
    rw [Tensor.seq_of_rows [B] N _ _ mergedShape outShape yRow one, mergedSeq b item,
      List.map_map, Attention.run, count, ← normedSeq, ← projectedSeq]
    apply List.map_congr_left
    intro n member
    have token := List.mem_range.mp member
    have here : Within [b, n] [B, N] := .cons item (.cons token .nil)
    refine congrArg (fun row => attention.out.apply (List.flatten row)) ?_
    apply List.map_congr_left
    intro h member
    have head := List.mem_range.mp member
    have opened : ((normed.seq [b]).map fun token =>
        (attention.gates.apply token).map kernels.sigmoid).getD n [] =
          (gates.map kernels.sigmoid).row [b, n] := by
      have length : n < (normed.seq [b]).length := by
        rwa [Tensor.seq_length [B] N _ normedShape]
      rw [Tensor.row_map _ [B, N] _ gatesShape here, gatesRow _ here,
        List.getD_eq_getElem _ _ (by rwa [List.length_map]), List.getElem_map,
        ← List.getD_eq_getElem _ [] length, Tensor.seq_getD [B] N _ normedShape _ token]
      rfl
    rw [opened, ← heads h head, Tensor.seq_getD [B, attention.heads] N _ gatedShape _ token,
      Tensor.seq_getD [B, attention.heads] N _ attendedShape _ token]
    exact gatedRow b h n item head token
structure Attending.Circular (attending : Attending K) : Prop where
  cos_sub : ∀ a b, attending.cos (a - b) =
    attending.cos a * attending.cos b + attending.sin a * attending.sin b
  sin_sub : ∀ a b, attending.sin (a - b) =
    attending.sin a * attending.cos b - attending.cos a * attending.sin b

def Attention.score (attending : Attending K) (attention : Attention K) (h : Nat) (apart : K)
    (query key : List K) : K :=
  match attention.pope with
  | none => ((List.range (attention.dimHead / 2)).map fun p =>
      let angle := apart * attending.rotary attention.dimHead p
      (query.getD (2 * p) 0 * key.getD (2 * p) 0 +
          query.getD (2 * p + 1) 0 * key.getD (2 * p + 1) 0) * attending.cos angle +
        (query.getD (2 * p) 0 * key.getD (2 * p + 1) 0 -
          query.getD (2 * p + 1) 0 * key.getD (2 * p) 0) * attending.sin angle).sum
  | some pope => ((List.range attention.dimHead).map fun d =>
      softplus attending (query.getD d 0) * softplus attending (key.getD d 0) *
        attending.cos (apart * pope.invFreqs.get [d] -
          (pope.offsets attending h).getD d 0)).sum

def Attention.headApart (attending : Attending K) (attention : Attention K)
    (projected : List (List K)) (h : Nat) : List (List K) :=
  let part := fun p => projected.map (slot attention.dimHead (p * attention.heads + h))
  (List.range projected.length).map fun i : Nat =>
    let scores := (List.range projected.length).map fun j : Nat =>
      attention.score attending h ((i : K) - j) ((part 0).getD i []) ((part 1).getD j []) *
        (1 / attending.sqrt (attention.dimHead : K))
    weighted (attending.softmax scores) (part 2) attention.dimHead

def Attention.runApart (kernels : Kernels K) (attending : Attending K) (attention : Attention K)
    (tokens : List (List K)) : List (List K) :=
  let normed := tokens.map (attention.norm.apply kernels)
  let projected := normed.map attention.qkv.apply
  let gates := normed.map fun token => (attention.gates.apply token).map kernels.sigmoid
  (List.range tokens.length).map fun n => attention.out.apply
    ((List.range attention.heads).map fun h =>
      ((attention.headApart attending projected h).getD n []).map
        (· * (gates.getD n []).getD h 0)).flatten

omit [LinearOrder K] in
theorem dot_rope {attending : Attending K} (circular : attending.Circular) (m i j : Nat)
    (q k : List K) :
    innerProduct (ropeRow attending (2 * m) i q) (ropeRow attending (2 * m) j k) =
      ((List.range m).map fun p =>
        (q.getD (2 * p) 0 * k.getD (2 * p) 0 + q.getD (2 * p + 1) 0 * k.getD (2 * p + 1) 0) *
            attending.cos (((i : K) - j) * attending.rotary (2 * m) p) +
          (q.getD (2 * p) 0 * k.getD (2 * p + 1) 0 - q.getD (2 * p + 1) 0 * k.getD (2 * p) 0) *
            attending.sin (((i : K) - j) * attending.rotary (2 * m) p)).sum := by
  have even : ∀ (n p : Nat) (values : List K), p < m →
      (ropeRow attending (2 * m) n values).getD (2 * p) 0 =
        values.getD (2 * p) 0 * attending.cos (n * attending.rotary (2 * m) p) -
          values.getD (2 * p + 1) 0 * attending.sin (n * attending.rotary (2 * m) p) := by
    intro n p values below
    have half : 2 * p / 2 = p := by omega
    rw [ropeRow, List.getD_eq_getElem _ _ (by simp; omega), List.getElem_map, List.getElem_range]
    simp only [half, Nat.mul_mod_right, if_true]
  have odd : ∀ (n p : Nat) (values : List K), p < m →
      (ropeRow attending (2 * m) n values).getD (2 * p + 1) 0 =
        values.getD (2 * p) 0 * attending.sin (n * attending.rotary (2 * m) p) +
          values.getD (2 * p + 1) 0 * attending.cos (n * attending.rotary (2 * m) p) := by
    intro n p values below
    have half : (2 * p + 1) / 2 = p := by omega
    have one : (2 * p + 1) % 2 = 1 := by omega
    rw [ropeRow, List.getD_eq_getElem _ _ (by simp; omega), List.getElem_map, List.getElem_range]
    simp only [half, one, Nat.add_sub_cancel]
    rfl
  rw [innerProduct, ropeRow_length, sum_pairs]
  congr 1
  apply List.map_congr_left
  intro p member
  have below := List.mem_range.mp member
  have spread : ((i : K) - j) * attending.rotary (2 * m) p =
      i * attending.rotary (2 * m) p - j * attending.rotary (2 * m) p := sub_mul _ _ _
  rw [even i p q below, even j p k below, odd i p q below, odd j p k below, spread,
    circular.cos_sub, circular.sin_sub]
  ring

omit [LinearOrder K] in
theorem dot_polar {attending : Attending K} (circular : attending.Circular) {d : Nat}
    {r r' angles angles' : List K} (rLength : r.length = d) (rLength' : r'.length = d)
    (length : angles.length = d) (length' : angles'.length = d) :
    innerProduct (polarRow attending r angles) (polarRow attending r' angles') =
      ((List.range d).map fun t => r.getD t 0 * r'.getD t 0 *
        attending.cos (angles.getD t 0 - angles'.getD t 0)).sum := by
  have entry : ∀ {r angles : List K}, r.length = d → angles.length = d → ∀ t < d,
      (polarRow attending r angles).getD (2 * t) 0 =
          r.getD t 0 * attending.cos (angles.getD t 0) ∧
        (polarRow attending r angles).getD (2 * t + 1) 0 =
          r.getD t 0 * attending.sin (angles.getD t 0) := by
    intro r angles left right t below
    have widths : ∀ pair ∈ List.zipWith (fun r angle => [r * attending.cos angle,
        r * attending.sin angle]) r angles, pair.length = 2 := by
      intro pair member
      obtain ⟨n, inside, rfl⟩ := List.mem_iff_getElem.mp member
      rw [List.getElem_zipWith]
      rfl
    have count : t < (List.zipWith (fun r angle => [r * attending.cos angle,
        r * attending.sin angle]) r angles).length := by
      rwa [List.length_zipWith, left, right, min_self]
    have first := getD_flatten 0 widths count (show 0 < 2 by omega)
    have second := getD_flatten 0 widths count (show 1 < 2 by omega)
    rw [Nat.mul_comm, List.getD_eq_getElem _ [] count, List.getElem_zipWith] at first second
    rw [List.getD_eq_getElem r 0 (by rwa [left]), List.getD_eq_getElem angles 0 (by rwa [right])]
    exact ⟨first, second⟩
  rw [innerProduct, polarRow_length attending rLength length, Nat.mul_comm, sum_pairs]
  congr 1
  apply List.map_congr_left
  intro t member
  have below := List.mem_range.mp member
  obtain ⟨first, second⟩ := entry rLength length t below
  obtain ⟨first', second'⟩ := entry rLength' length' t below
  rw [first, second, first', second', circular.cos_sub]
  ring
/-- Position enters a score through a difference, under either scheme. -/
theorem Attention.dot_query_key {attending : Attending K} (circular : attending.Circular)
    (attention : Attention K) (even : attention.pope = none → 2 ∣ attention.dimHead)
    (h i j : Nat) {q k : List K} (left : q.length = attention.dimHead)
    (right : k.length = attention.dimHead) :
    innerProduct (attention.query attending i q) (attention.key attending h j k) =
      attention.score attending h ((i : K) - j) q k := by
  unfold Attention.query Attention.key Attention.score
  cases scheme : attention.pope with
  | none =>
      obtain ⟨m, deep⟩ := even scheme
      have half : 2 * m / 2 = m := by omega
      simp only [deep, half]
      exact dot_rope circular m i j q k
  | some pope =>
      obtain ⟨heads, depth⟩ := attention.popeFits pope scheme
      have freqsShape : pope.invFreqs.shape = [] ++ [attention.dimHead] := by
        rw [pope.invFreqsShape, depth]
        rfl
      have biasShape : pope.bias.shape = [pope.heads] ++ [attention.dimHead] := by
        rw [pope.biasShape, depth]
        rfl
      have freqs : (pope.invFreqs.row []).length = attention.dimHead :=
        Tensor.row_length [] _ freqsShape _
      have offsets : (pope.offsets attending h).length = attention.dimHead := by
        rw [Pope.offsets, List.length_map, Tensor.row_length _ _ biasShape]
      have angles : ∀ n, (pope.angles n).length = attention.dimHead := by
        intro n
        rw [Pope.angles, List.length_map, freqs]
      rw [dot_polar circular (by rwa [List.length_map]) (by rwa [List.length_map]) (angles i)
        (by rw [List.length_zipWith, angles, offsets, min_self])]
      congr 1
      apply List.map_congr_left
      intro d member
      have below := List.mem_range.mp member
      have angle : ∀ n : Nat, (pope.angles n).getD d 0 = n * pope.invFreqs.get [d] := by
        intro n
        have entry := Tensor.row_getD [] _ freqsShape [] below
        rw [List.getD_eq_getElem _ _ (by rwa [freqs])] at entry
        rw [Pope.angles, List.getD_eq_getElem _ _ (by rwa [List.length_map, freqs]),
          List.getElem_map, entry]
        rfl
      have bent : ∀ values : List K, values.length = attention.dimHead →
          (values.map (softplus attending)).getD d 0 = softplus attending (values.getD d 0) := by
        intro values length
        have inside : d < values.length := by rwa [length]
        rw [List.getD_eq_getElem _ _ (by rwa [List.length_map]), List.getElem_map,
          List.getD_eq_getElem _ _ inside]
      have turned : (List.zipWith (· + ·) (pope.angles j) (pope.offsets attending h)).getD d 0 =
          (pope.angles j).getD d 0 + (pope.offsets attending h).getD d 0 := by
        have inside : d < (pope.angles j).length := by rwa [angles]
        have inside' : d < (pope.offsets attending h).length := by rwa [offsets]
        rw [List.getD_eq_getElem _ _ (by rwa [List.length_zipWith, angles, offsets, min_self]),
          List.getElem_zipWith, List.getD_eq_getElem _ _ inside, List.getD_eq_getElem _ _ inside']
      rw [bent q left, bent k right, turned, angle, angle]
      congr 2
      ring

theorem Attention.head_eq_apart {attending : Attending K} (circular : attending.Circular)
    (attention : Attention K) (even : attention.pope = none → 2 ∣ attention.dimHead) {h : Nat}
    (head : h < attention.heads) {projected : List (List K)}
    (widths : ∀ token ∈ projected,
      token.length = attention.heads * attention.dimHead * 3) :
    attention.head attending projected h = attention.headApart attending projected h := by
  have share : ∀ p < 3, ∀ token ∈ projected,
      (slot attention.dimHead (p * attention.heads + h) token).length = attention.dimHead := by
    intro p small token member
    have wide : p * attention.heads + h < attention.heads * 3 := by
      have : (p + 1) * attention.heads ≤ 3 * attention.heads := Nat.mul_le_mul_right _ small
      rw [Nat.succ_mul] at this
      omega
    refine slot_length ?_ wide
    rw [widths token member]
    ring
  have at_place : ∀ p, ∀ n : Nat, ∀ below : n < projected.length,
      (projected.map (slot attention.dimHead (p * attention.heads + h))).getD n [] =
        slot attention.dimHead (p * attention.heads + h) projected[n] := by
    intro p n below
    rw [List.getD_eq_getElem _ _ (by rwa [List.length_map]), List.getElem_map]
  unfold Attention.head Attention.headApart
  apply List.ext_getElem (by simp)
  intro i before _
  have query : i < projected.length := by simpa using before
  simp only [List.getElem_map, List.getElem_mapIdx, List.getElem_range, attendRow]
  congr 2
  apply List.ext_getElem (by simp)
  intro j before' _
  have key : j < projected.length := by simpa using before'
  simp only [List.getElem_map, List.getElem_mapIdx, List.getElem_range]
  rw [at_place 0 i query, at_place 1 j key,
    attention.dot_query_key circular even h i j
      (share 0 (by omega) _ (List.getElem_mem query))
      (share 1 (by omega) _ (List.getElem_mem key))]

/-- Whatever the scheme, the network is told how far apart two tokens are and not where they
stand. -/
theorem Attention.forward_apart (kernels : Kernels K) {attending : Attending K}
    (circular : attending.Circular) (attention : Attention K)
    (even : attention.pope = none → 2 ∣ attention.dimHead) (deep : 0 < attention.dimHead)
    {x : Tensor K} {B N : Nat} (shape : x.shape = [B, N, attention.dim]) (places : 0 < N) :
    ∃ y, attention.forward kernels attending x = .ok y ∧ y.shape = [B, N, attention.dim] ∧
      ∀ b < B, y.seq [b] = attention.runApart kernels attending (x.seq [b]) := by
  obtain ⟨y, forward, yShape, ran⟩ :=
    attention.forward_spec kernels attending shape places deep
  refine ⟨y, forward, yShape, fun b item => ?_⟩
  rw [ran b item, Attention.run, Attention.runApart]
  apply List.map_congr_left
  intro n _
  refine congrArg (fun row => attention.out.apply (List.flatten row)) ?_
  apply List.map_congr_left
  intro h member
  rw [attention.head_eq_apart circular even (List.mem_range.mp member)]
  intro token member
  obtain ⟨normed, -, rfl⟩ := List.mem_map.mp member
  rw [Linear.apply_length, attention.qkvFits.2]
end

theorem no_bias {K : Type} {chout : Nat} :
    ∀ b : Tensor K, none = some b → b.shape = [chout] := by
  rintro b ⟨⟩

def evenLinear {K : Type} [Zero K] (chin chout : Nat) (value : K) : Linear K where
  chin := chin
  chout := chout
  weight := .build [chin, chout] fun _ => value
  weightShape := rfl
  bias := none
  biasShape := no_bias

def evenNorm {K : Type} (width : Nat) (value : K) : RmsNorm K where
  width := width
  gamma := .build [width] fun _ => value
  gammaShape := rfl

theorem oneNorm_width : (evenNorm 1 (1 : ℝ)).width = 1 := rfl

noncomputable def quarterPope : Pope ℝ where
  heads := 1
  dimHead := 2
  invFreqs := ⟨[2], [1, 0.01], rfl⟩
  invFreqsShape := rfl
  bias := ⟨[1, 2], [-(Real.pi / 2.0), -(Real.pi / 2.0)], rfl⟩
  biasShape := rfl

noncomputable def polarAttention : Attention ℝ where
  dim := 1
  heads := 1
  dimHead := 2
  norm := evenNorm 1 1
  qkv := evenLinear 1 6 1
  gates := evenLinear 1 1 1
  out := evenLinear 2 1 1
  pope := some quarterPope
  normFits := oneNorm_width
  qkvFits := ⟨rfl, rfl⟩
  gatesFits := ⟨rfl, rfl⟩
  outFits := ⟨rfl, rfl⟩
  popeFits p is := by
    cases is
    exact ⟨rfl, rfl⟩

/-- What the runtime computes, up to rounding. -/
noncomputable def realAttending : Attending ℝ where
  softmax values := values.map fun v => Real.exp v / (values.map Real.exp).sum
  softmax_length values := by rw [List.length_map]
  cos := Real.cos
  sin := Real.sin
  exp := Real.exp
  log1p v := Real.log (1 + v)
  sqrt := Real.sqrt
  pi := Real.pi
  rotary dims pair := (10000.0 : ℝ) ^ (-(2.0 * (pair : ℝ)) / dims)

theorem realAttending_circular : realAttending.Circular := ⟨Real.cos_sub, Real.sin_sub⟩

noncomputable def realKernels : Kernels ℝ where
  rmsNorm values gamma := values.mapIdx fun t v =>
    v / Real.sqrt ((values.map fun u => u * u).sum / values.length + 1e-12) * gamma.getD t 0
  tanh := Real.tanh
  sigmoid v := 1 / (1 + Real.exp (-v))
  rmsNorm_length values gamma := by rw [List.length_mapIdx]

theorem polar_forward_apart :
    ∃ y, polarAttention.forward realKernels realAttending ⟨[1, 3, 1], [1, 2, -3], rfl⟩ = .ok y ∧
      y.shape = [1, 3, 1] ∧
      y.seq [0] = polarAttention.runApart realKernels realAttending [[1], [2], [-3]] := by
  obtain ⟨y, forward, shape, ran⟩ := polarAttention.forward_apart realKernels
    realAttending_circular (by intro none; cases none) (show 0 < 2 by decide)
    (x := ⟨[1, 3, 1], [1, 2, -3], rfl⟩) (B := 1) (N := 3) rfl (by decide)
  refine ⟨y, forward, shape, (ran 0 (by decide)).trans ?_⟩
  rfl

end Stemd.Mlx.Roformer
