import Stemd.Mlx.OverlapAdd

/-! The two ends of the band-split model: one network per frequency band on the way in, and
one per band on the way out.

The bands are not equally wide, and both ends walk the same table of widths. What a network
computes of one position is its own business here; what matters is which features it is
given and where its answer goes. -/

set_option autoImplicit false

namespace Stemd.Mlx.Roformer

open Stemd.Semantics

structure Config where
  dim : Nat
  audioChannels : Nat
  nFft : Nat
  hop : Nat
  /-- Frequency bins per band. -/
  bands : List Nat
  maskExpansion : Nat
  deriving DecidableEq, Repr

/-- `the bands cover {total} bins but a {n_fft}-point transform has {bins}` -/
structure Uncovered where
  total : Nat
  nFft : Nat
  bins : Nat
  deriving DecidableEq, Repr

def Config.bins (config : Config) : Nat := config.nFft / 2 + 1

/-- Width of each band once complex parts and audio channels are unrolled into it. -/
def Config.bandFeatures (config : Config) : List Nat :=
  config.bands.map fun f => 2 * f * config.audioChannels

def Config.check (config : Config) : Except Uncovered Unit :=
  if config.bands.sum ≠ config.bins then
    .error ⟨config.bands.sum, config.nFft, config.bins⟩
  else .ok ()

structure Kernels (K : Type) where
  /-- A row and its gains. -/
  rmsNorm : List K → List K → List K
  tanh : K → K
  sigmoid : K → K
  rmsNorm_length : ∀ values gamma, (rmsNorm values gamma).length = values.length

/-- `x / rms(x) * gamma`, over the last axis. -/
structure RmsNorm (K : Type) where
  width : Nat
  gamma : Tensor K
  gammaShape : gamma.shape = [width]

structure Linear (K : Type) where
  chin : Nat
  chout : Nat
  weight : Tensor K
  weightShape : weight.shape = [chin, chout]
  bias : Option (Tensor K)
  biasShape : ∀ b, bias = some b → b.shape = [chout]

section

variable {K : Type} [Zero K]

def RmsNorm.forward (kernels : Kernels K) (norm : RmsNorm K) (x : Tensor K) :
    Except SpectralError (Tensor K) :=
  if x.shape.getLast? = some norm.width then
    .ok (x.mapRows norm.width fun values => kernels.rmsNorm values norm.gamma.data)
  else .error .array

variable [Add K] [Mul K]

def Linear.forward (linear : Linear K) (x : Tensor K) : Except SpectralError (Tensor K) := do
  let y ← fitting (x.matmul linear.weight)
  match linear.bias with
  | some b => fitting (y.zipWith (· + ·) b)
  | none => .ok y

def Linear.value (linear : Linear K) (values : List K) (o : Nat) : K :=
  let y := ((List.range linear.chin).map fun k =>
    values.getD k 0 * linear.weight.get [k, o]).sum
  match linear.bias with
  | some b => y + b.get [o]
  | none => y

end

structure BandSplit (config : Config) (K : Type) where
  bands : List (RmsNorm K × Linear K)
  fits : List.Forall₂ (fun band width => band.1.width = width ∧ band.2.chin = width ∧
    band.2.chout = config.dim) bands config.bandFeatures

structure MaskEstimator (config : Config) (K : Type) where
  bands : List (Linear K × Linear K)
  fits : List.Forall₂ (fun band width => band.1.chin = config.dim ∧
    band.1.chout = config.dim * config.maskExpansion ∧ band.2.chin = band.1.chout ∧
    band.2.chout = width * 2) bands config.bandFeatures

section

variable {K : Type} [Zero K] [Add K] [Mul K]

def splitBands (kernels : Kernels K) (x : Tensor K) :
    List ((RmsNorm K × Linear K) × Nat) → Nat → Except SpectralError (List (Tensor K))
  | [], _ => .ok []
  | ((norm, project), width) :: rest, start => do
      let slice ← fitting (x.slice 2 start (start + width))
      let normed ← norm.forward kernels slice
      let out ← project.forward normed
      let outs ← splitBands kernels x rest (start + width)
      return out :: outs

/-- `[B, N, sum(widths)] -> [B, N, bands, dim]` -/
def BandSplit.forward {config : Config} (kernels : Kernels K) (split : BandSplit config K)
    (x : Tensor K) : Except SpectralError (Tensor K) := do
  let out ← splitBands kernels x (split.bands.zip config.bandFeatures) 0
  fitting (Tensor.stackAxis out 2)

/-- One band's mask: the first half of its output, gated by the second. -/
def estimateBand (kernels : Kernels K) (x : Tensor K) (index : Nat) (band : Linear K × Linear K) :
    Except SpectralError (Tensor K) := do
  let features ← fitting (x.select 2 index)
  let hidden := (← band.1.forward features).map kernels.tanh
  let both ← band.2.forward hidden
  let (axis, last) ← lastAxis both
  let half := last / 2
  let value ← fitting (both.slice axis 0 half)
  let gate ← fitting (both.slice axis half (2 * half : Nat))
  fitting (value.zipWith (· * ·) (gate.map kernels.sigmoid))

def estimateBands (kernels : Kernels K) (x : Tensor K) :
    List (Linear K × Linear K) → Nat → Except SpectralError (List (Tensor K))
  | [], _ => .ok []
  | band :: rest, index => do
      let out ← estimateBand kernels x index band
      let outs ← estimateBands kernels x rest (index + 1)
      return out :: outs

/-- `[B, N, bands, dim] -> [B, N, sum(widths)]` -/
def MaskEstimator.forward {config : Config} (kernels : Kernels K) (mask : MaskEstimator config K)
    (x : Tensor K) : Except SpectralError (Tensor K) := do
  let out ← estimateBands kernels x mask.bands 0
  fitting (Tensor.concatAxis out 2)

def features (x : Tensor K) (row : List Nat) (start width : Nat) : List K :=
  (List.range width).map fun j => x.get (row ++ [start + j])

def splitValue (kernels : Kernels K) (band : RmsNorm K × Linear K) (values : List K) (d : Nat) :
    K :=
  band.2.value (kernels.rmsNorm values band.1.gamma.data) d

def maskValue (kernels : Kernels K) (band : Linear K × Linear K) (width : Nat) (values : List K)
    (j : Nat) : K :=
  let hidden := (List.range band.1.chout).map fun o => kernels.tanh (band.1.value values o)
  band.2.value hidden j * kernels.sigmoid (band.2.value hidden (width + j))

theorem Linear.forward_spec (linear : Linear K) {x : Tensor K} (lead : List Nat)
    (shape : x.shape = lead ++ [linear.chin]) :
    ∃ y, linear.forward x = .ok y ∧ y.shape = lead ++ [linear.chout] ∧
      ∀ i o, Within i lead → o < linear.chout →
        y.get (i ++ [o]) = linear.value (x.row i) o := by
  obtain ⟨y, product, yShape, yEntry⟩ := Tensor.matmul_spec lead shape linear.weightShape
  cases biased : linear.bias with
  | none =>
      refine ⟨y, ?_, yShape, fun i o outer below => ?_⟩
      · simp only [Linear.forward, product, biased, fitting, bind, Except.bind]
      · simp only [Linear.value, biased]
        exact yEntry i o outer below
  | some b =>
      have bShape := linear.biasShape b biased
      have fits : Tensor.broadcast y.shape b.shape = some (lead ++ [linear.chout]) := by
        rw [yShape, bShape, Tensor.broadcast_last]
      obtain ⟨z, added, zShape, zEntry⟩ := Tensor.zipWith_spec (· + ·) fits
      refine ⟨z, ?_, zShape, fun i o outer below => ?_⟩
      · simp only [Linear.forward, product, biased, added, fitting, bind, Except.bind]
      · have here := within_append outer (.cons below .nil)
        simp only [Linear.value, biased]
        rw [zEntry _ here, yShape, bShape, Tensor.align_self here, Tensor.align_last i below,
          yEntry i o outer below]

omit [Add K] [Mul K] in
theorem RmsNorm.forward_spec (kernels : Kernels K) (norm : RmsNorm K) {x : Tensor K}
    (lead : List Nat) (shape : x.shape = lead ++ [norm.width]) :
    ∃ y, norm.forward kernels x = .ok y ∧ y.shape = lead ++ [norm.width] ∧
      ∀ i, Within i lead → y.row i = kernels.rmsNorm (x.row i) norm.gamma.data := by
  obtain ⟨yShape, yEntry⟩ := Tensor.mapRows_spec lead norm.width shape norm.width fun values =>
    kernels.rmsNorm values norm.gamma.data
  refine ⟨_, if_pos (by rw [shape, List.getLast?_concat]), yShape, fun i outer => ?_⟩
  have length : (kernels.rmsNorm (x.row i) norm.gamma.data).length = norm.width := by
    rw [kernels.rmsNorm_length, Tensor.row_length lead norm.width shape]
  rw [Tensor.row_eq lead norm.width yShape]
  apply List.ext_getElem (by rw [List.length_map, List.length_range, length])
  intro t left right
  rw [List.getElem_map, List.getElem_range, yEntry i t outer (by simpa using left),
    List.getD_eq_getElem _ _ right]

theorem splitBands_spec (kernels : Kernels K) {x : Tensor K} {B N total dim : Nat}
    (shape : x.shape = [B, N, total]) {bands : List (RmsNorm K × Linear K)} {widths : List Nat}
    (fits : List.Forall₂ (fun band width => band.1.width = width ∧ band.2.chin = width ∧
      band.2.chout = dim) bands widths) (start : Nat) (room : start + widths.sum ≤ total) :
    ∃ outs, splitBands kernels x (bands.zip widths) start = .ok outs ∧
      outs.length = bands.length ∧ (∀ out ∈ outs, out.shape = [B, N, dim]) ∧
      ∀ i band width, bands[i]? = some band → widths[i]? = some width →
        ∃ out, outs[i]? = some out ∧ ∀ b n d, b < B → n < N → d < dim → out.get [b, n, d] =
          splitValue kernels band (features x [b, n] (start + (widths.take i).sum) width) d := by
  induction fits generalizing start with
  | nil =>
      refine ⟨[], rfl, rfl, by simp, ?_⟩
      intro i band width at_i
      simp at at_i
  | @cons band width bands widths fit rest ih =>
      obtain ⟨⟨normWidth, gamma, gammaShape⟩, project⟩ := band
      obtain ⟨rfl, chin, chout⟩ := fit
      rw [List.sum_cons] at room
      dsimp only at chin chout room
      obtain ⟨slice, sliced, sliceShape, sliceEntry⟩ :=
        Tensor.slice_spec [B, N] total [] shape (show (0 : Int) ≤ start by omega)
          (show (start : Int) ≤ start + normWidth by omega)
          (show (start : Int) + normWidth ≤ total by omega)
      have cut : ((start : Int) + normWidth - start).toNat = normWidth := by omega
      rw [cut] at sliceShape
      obtain ⟨normed, norming, normedShape, normedRow⟩ :=
        RmsNorm.forward_spec kernels ⟨normWidth, gamma, gammaShape⟩ [B, N] sliceShape
      obtain ⟨out, projecting, outShape, outEntry⟩ :=
        Linear.forward_spec project [B, N] (normedShape.trans (by rw [chin]))
      -- The next band begins where this one ends.
      obtain ⟨outs, others, length, shapes, entries⟩ := ih (start + normWidth) (by omega)
      rw [chout] at outShape outEntry
      have sliced' : x.slice 2 start (start + normWidth) = some slice := sliced
      refine ⟨out :: outs, ?_, by rw [List.length_cons, length, List.length_cons], ?_, ?_⟩
      · have others' : splitBands kernels x (bands.zip widths) (start + normWidth) = .ok outs :=
          others
        simp only [List.zip_cons_cons, splitBands, sliced', norming, projecting, others', fitting,
          bind, Except.bind]
        rfl
      · intro part member
        rcases List.mem_cons.mp member with rfl | later
        · exact outShape
        · exact shapes part later
      · intro i band' width' at_i wide
        cases i with
        | zero =>
            cases at_i
            cases wide
            refine ⟨out, rfl, fun b n d row frame below => ?_⟩
            have here : Within [b, n] [B, N] := .cons row (.cons frame .nil)
            -- A row of the slice is the band's share of the features.
            have cutRow : slice.row [b, n] = features x [b, n] start normWidth := by
              rw [Tensor.row_eq [B, N] normWidth sliceShape, features]
              apply List.map_congr_left
              intro j inside
              have := List.mem_range.mp inside
              refine (sliceEntry [b, n] j [] here (by omega) .nil).trans ?_
              rw [Int.toNat_natCast]
            refine (outEntry [b, n] d here below).trans ?_
            rw [normedRow _ here, cutRow, splitValue]
            rfl
        | succ i =>
            obtain ⟨out', at_i', entry⟩ := entries i band' width' at_i wide
            refine ⟨out', at_i', fun b n d row frame below => ?_⟩
            rw [entry b n d row frame below, List.take_succ_cons, List.sum_cons, Nat.add_assoc]

/-- Band `i` reads the features after those of the bands before it. -/
theorem BandSplit.forward_spec {config : Config} (kernels : Kernels K)
    (split : BandSplit config K) (nonempty : config.bands ≠ []) {x : Tensor K} {B N : Nat}
    (shape : x.shape = [B, N, config.bandFeatures.sum]) :
    ∃ y, split.forward kernels x = .ok y ∧ y.shape = [B, N, config.bands.length, config.dim] ∧
      ∀ i band width, split.bands[i]? = some band → config.bandFeatures[i]? = some width →
        ∀ b n d, b < B → n < N → d < config.dim → y.get [b, n, i, d] =
          splitValue kernels band
            (features x [b, n] (config.bandFeatures.take i).sum width) d := by
  obtain ⟨outs, walked, length, shapes, entries⟩ :=
    splitBands_spec kernels shape split.fits 0 (by omega)
  have count : split.bands.length = config.bands.length := by
    rw [split.fits.length_eq, Config.bandFeatures, List.length_map]
  -- Stacking no bands at all is refused.
  have some_band : outs ≠ [] := by
    apply List.ne_nil_of_length_pos
    rw [length, count]
    exact List.length_pos_iff.mpr nonempty
  obtain ⟨y, stacked, yShape, yEntry⟩ :=
    Tensor.stackAxis_spec [B, N] [config.dim] some_band shapes
  rw [length, count] at yShape
  have stacked' : Tensor.stackAxis outs 2 = some y := stacked
  refine ⟨y, ?_, yShape, fun i band width at_i wide b n d row frame below => ?_⟩
  · simp only [BandSplit.forward, walked, stacked', fitting, bind, Except.bind]
  · obtain ⟨out, outIs, entry⟩ := entries i band width at_i wide
    have here := yEntry i out outIs [b, n] [d] (.cons row (.cons frame .nil)) (.cons below .nil)
    refine here.trans ((entry b n d row frame below).trans ?_)
    rw [Nat.zero_add]

theorem estimateBand_spec (kernels : Kernels K) {x : Tensor K} {B N count dim width index : Nat}
    (shape : x.shape = [B, N, count, dim]) (inside : index < count) (band : Linear K × Linear K)
    (up : band.1.chin = dim) (down : band.2.chin = band.1.chout)
    (out : band.2.chout = width * 2) :
    ∃ y, estimateBand kernels x index band = .ok y ∧ y.shape = [B, N, width] ∧
      ∀ b n j, b < B → n < N → j < width →
        y.get [b, n, j] = maskValue kernels band width (x.row [b, n, index]) j := by
  obtain ⟨picked, selecting, pickedShape, pickedEntry⟩ :=
    Tensor.select_spec [B, N] count [dim] shape inside
  obtain ⟨raised, raising, raisedShape, raisedEntry⟩ :=
    Linear.forward_spec band.1 [B, N] (pickedShape.trans (by rw [up]))
  obtain ⟨both, lowering, bothShape, bothEntry⟩ :=
    Linear.forward_spec band.2 (x := raised.map kernels.tanh) [B, N]
      (raisedShape.trans (by rw [down]))
  rw [out] at bothShape bothEntry
  have half : width * 2 / 2 = width := by omega
  obtain ⟨value, valued, valueShape, valueEntry⟩ :=
    Tensor.slice_spec [B, N] (width * 2) [] bothShape (show (0 : Int) ≤ 0 by omega)
      (show (0 : Int) ≤ (width : Int) by omega) (show (width : Int) ≤ (width * 2 : Nat) by omega)
  obtain ⟨gate, gated, gateShape, gateEntry⟩ :=
    Tensor.slice_spec [B, N] (width * 2) [] bothShape (show (0 : Int) ≤ (width : Int) by omega)
      (show (width : Int) ≤ (2 * width : Nat) by omega)
      (show ((2 * width : Nat) : Int) ≤ (width * 2 : Nat) by omega)
  have valueWidth : ((width : Int) - 0).toNat = width := by omega
  have gateWidth : (((2 * width : Nat) : Int) - width).toNat = width := by omega
  rw [valueWidth] at valueShape
  rw [gateWidth] at gateShape
  obtain ⟨y, multiplied, yShape, yEntry⟩ :=
    Tensor.zipWith_self_spec (· * ·) (x := value) (y := gate.map kernels.sigmoid)
      (gateShape.trans valueShape.symm)
  refine ⟨y, ?_, yShape.trans valueShape, fun b n j row frame below => ?_⟩
  · have selecting' : x.select 2 index = some picked := selecting
    have valued' : both.slice 2 0 width = some value := valued
    have gated' : both.slice 2 width (2 * width : Nat) = some gate := gated
    have axis : lastAxis both = .ok (2, width * 2) :=
      lastAxis_eq (show both.shape = [B, N] ++ [width * 2] from bothShape)
    simp only [estimateBand, selecting', raising, lowering, axis, half, valued', gated',
      multiplied, fitting, bind, Except.bind]
  · have here : Within [b, n] [B, N] := .cons row (.cons frame .nil)
    have within : Within [b, n, j] [B, N, width] := .cons row (.cons frame (.cons below .nil))
    have pickedRow : picked.row [b, n] = x.row [b, n, index] := by
      rw [Tensor.row_eq [B, N] dim pickedShape, Tensor.row_eq [B, N, count] dim shape]
      apply List.map_congr_left
      intro t at_t
      exact pickedEntry [b, n] [t] here (.cons (List.mem_range.mp at_t) .nil)
    have hiddenRow : (raised.map kernels.tanh).row [b, n] =
        (List.range band.1.chout).map fun o =>
          kernels.tanh (band.1.value (x.row [b, n, index]) o) := by
      have mapped : (raised.map kernels.tanh).shape = [B, N] ++ [band.1.chout] := raisedShape
      rw [Tensor.row_eq [B, N] band.1.chout mapped, ← pickedRow]
      apply List.map_congr_left
      intro o at_o
      have inner := List.mem_range.mp at_o
      rw [Tensor.get_map _ (raisedShape ▸ within_append here (.cons inner .nil)),
        raisedEntry [b, n] o here inner]
    have first : value.get [b, n, j] = band.2.value ((raised.map kernels.tanh).row [b, n]) j := by
      refine (valueEntry [b, n] j [] here (by omega) .nil).trans ?_
      rw [Int.toNat_zero, Nat.zero_add]
      exact bothEntry [b, n] j here (by omega)
    have second : gate.get [b, n, j] =
        band.2.value ((raised.map kernels.tanh).row [b, n]) (width + j) := by
      refine (gateEntry [b, n] j [] here (by omega) .nil).trans ?_
      rw [Int.toNat_natCast]
      exact bothEntry [b, n] (width + j) here (by omega)
    rw [yEntry _ (valueShape ▸ within), Tensor.get_map _ (gateShape ▸ within), first, second,
      hiddenRow]
    rfl

theorem estimateBands_spec (kernels : Kernels K) {x : Tensor K} {B N count dim hidden : Nat}
    (shape : x.shape = [B, N, count, dim]) {bands : List (Linear K × Linear K)}
    {widths : List Nat} (fits : List.Forall₂ (fun band width => band.1.chin = dim ∧
      band.1.chout = hidden ∧ band.2.chin = band.1.chout ∧ band.2.chout = width * 2) bands widths)
    (index : Nat) (room : index + bands.length ≤ count) :
    ∃ outs, estimateBands kernels x bands index = .ok outs ∧
      List.Forall₂ (fun out width => out.shape = [B, N] ++ width :: []) outs widths ∧
      ∀ i band width, bands[i]? = some band → widths[i]? = some width →
        ∃ out, outs[i]? = some out ∧ ∀ b n j, b < B → n < N → j < width →
          out.get [b, n, j] = maskValue kernels band width (x.row [b, n, index + i]) j := by
  induction fits generalizing index with
  | nil =>
      refine ⟨[], rfl, .nil, ?_⟩
      intro i band width at_i
      simp at at_i
  | @cons band width bands widths fit rest ih =>
      obtain ⟨up, _, down, final⟩ := fit
      rw [List.length_cons] at room
      obtain ⟨out, estimated, outShape, outEntry⟩ :=
        estimateBand_spec kernels shape (show index < count by omega) band up down final
      obtain ⟨outs, others, shapes, entries⟩ := ih (index + 1) (by omega)
      refine ⟨out :: outs, ?_, .cons outShape shapes, ?_⟩
      · simp only [estimateBands, estimated, others, bind, Except.bind]
        rfl
      · intro i band' width' at_i wide
        cases i with
        | zero =>
            cases at_i
            cases wide
            exact ⟨out, rfl, outEntry⟩
        | succ i =>
            obtain ⟨out', outIs, entry⟩ := entries i band' width' at_i wide
            refine ⟨out', outIs, fun b n j row frame below => ?_⟩
            rw [entry b n j row frame below, Nat.add_right_comm, Nat.add_assoc]

/-- Band `i` answers for the features that were cut for it. -/
theorem MaskEstimator.forward_spec {config : Config} (kernels : Kernels K)
    (mask : MaskEstimator config K) (nonempty : config.bands ≠ []) {x : Tensor K} {B N : Nat}
    (shape : x.shape = [B, N, config.bands.length, config.dim]) :
    ∃ y, mask.forward kernels x = .ok y ∧ y.shape = [B, N, config.bandFeatures.sum] ∧
      ∀ i band width, mask.bands[i]? = some band → config.bandFeatures[i]? = some width →
        ∀ b n j, b < B → n < N → j < width →
          y.get [b, n, (config.bandFeatures.take i).sum + j] =
            maskValue kernels band width (x.row [b, n, i]) j := by
  have count : mask.bands.length = config.bands.length := by
    rw [mask.fits.length_eq, Config.bandFeatures, List.length_map]
  obtain ⟨outs, walked, shapes, entries⟩ :=
    estimateBands_spec kernels shape mask.fits 0 (by omega)
  have some_band : outs ≠ [] := by
    apply List.ne_nil_of_length_pos
    rw [shapes.length_eq, Config.bandFeatures, List.length_map]
    exact List.length_pos_iff.mpr nonempty
  obtain ⟨y, joined, yShape, yEntry⟩ :=
    Tensor.concatAxis_spec outs [B, N] config.bandFeatures [] some_band shapes
  have joined' : Tensor.concatAxis outs 2 = some y := joined
  refine ⟨y, ?_, yShape, fun i band width at_i wide b n j row frame below => ?_⟩
  · simp only [MaskEstimator.forward, walked, joined', fitting, bind, Except.bind]
  · obtain ⟨out, outIs, entry⟩ := entries i band width at_i wide
    have here := yEntry i width out wide outIs [b, n] j [] (.cons row (.cons frame .nil)) below .nil
    refine here.trans ((entry b n j row frame below).trans ?_)
    rw [Nat.zero_add]

end

end Stemd.Mlx.Roformer
