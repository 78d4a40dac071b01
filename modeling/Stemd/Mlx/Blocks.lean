import Stemd.Mlx.Attention

/-! The blocks of the band-split model: attention across time, then attention across bands.

Both are ordinary transformers over sequences of tokens. What differs is which axis is folded
into the batch before they run, and folding the wrong one gives an array of the right shape. -/

set_option autoImplicit false

namespace Stemd.Mlx.Roformer

open Stemd.Semantics

/-- Norm, widen, gelu, narrow. -/
structure FeedForward (K : Type) where
  dim : Nat
  norm : RmsNorm K
  up : Linear K
  down : Linear K
  normFits : norm.width = dim
  upFits : up.chin = dim
  downFits : down.chin = up.chout ∧ down.chout = dim

structure Transformer (K : Type) where
  dim : Nat
  layers : List (Attention K × FeedForward K)
  fits : ∀ layer ∈ layers, layer.1.dim = dim ∧ 0 < layer.1.dimHead ∧ layer.2.dim = dim

structure Block (K : Type) where
  time : Transformer K
  freq : Transformer K

section

variable {K : Type} [Field K] [LinearOrder K]

omit [LinearOrder K] in
def FeedForward.forward (kernels : Kernels K) (act : Activations K) (ff : FeedForward K)
    (x : Tensor K) : Except SpectralError (Tensor K) := do
  let normed ← ff.norm.forward kernels x
  let y ← ff.up.forward normed
  ff.down.forward (gelu act y)

def Transformer.step (kernels : Kernels K) (act : Activations K) (attending : Attending K)
    (x : Tensor K) (layer : Attention K × FeedForward K) : Except SpectralError (Tensor K) := do
  let x ← fitting ((← layer.1.forward kernels attending x).zipWith (· + ·) x)
  fitting ((← layer.2.forward kernels act x).zipWith (· + ·) x)

def Transformer.forward (kernels : Kernels K) (act : Activations K) (attending : Attending K)
    (transformer : Transformer K) (x : Tensor K) : Except SpectralError (Tensor K) :=
  transformer.layers.foldlM (Transformer.step kernels act attending) x

/-- One block: either axis folded into the batch in turn, and put back. -/
def Block.forward (kernels : Kernels K) (act : Activations K) (attending : Attending K)
    (batch frames bands dim : Nat) (x : Tensor K) (block : Block K) :
    Except SpectralError (Tensor K) := do
  -- Across time: every band attends over the whole timeline.
  let packed ← fitting (x.transposeAxes [0, 2, 1, 3])
  let packed ← fitting (packed.reshape [batch * bands, frames, dim])
  let out ← block.time.forward kernels act attending packed
  let out ← fitting (out.reshape [batch, bands, frames, dim])
  let x ← fitting (out.transposeAxes [0, 2, 1, 3])
  -- Across bands: every instant attends over the whole spectrum.
  let packed ← fitting (x.reshape [batch * frames, bands, dim])
  let out ← block.freq.forward kernels act attending packed
  fitting (out.reshape [batch, frames, bands, dim])

def transform (kernels : Kernels K) (act : Activations K) (attending : Attending K)
    (blocks : List (Block K)) (finalNorm : RmsNorm K) (x : Tensor K) :
    Except SpectralError (Tensor K) := do
  let [batch, frames, bands, dim] := x.shape | throw .array
  let x ← blocks.foldlM (Block.forward kernels act attending batch frames bands dim) x
  finalNorm.forward kernels x

omit [LinearOrder K] in
def FeedForward.run (kernels : Kernels K) (act : Activations K) (ff : FeedForward K)
    (token : List K) : List K :=
  ff.down.apply ((ff.up.apply (ff.norm.apply kernels token)).map fun v =>
    v * (1 + act.erf (v / act.sqrt2)) / 2.0)

def Transformer.turn (kernels : Kernels K) (act : Activations K) (attending : Attending K)
    (tokens : List (List K)) (layer : Attention K × FeedForward K) : List (List K) :=
  let tokens := List.zipWith (List.zipWith (· + ·)) (layer.1.run kernels attending tokens) tokens
  tokens.map fun token => List.zipWith (· + ·) (layer.2.run kernels act token) token

def Transformer.run (kernels : Kernels K) (act : Activations K) (attending : Attending K)
    (transformer : Transformer K) (tokens : List (List K)) : List (List K) :=
  transformer.layers.foldl (Transformer.turn kernels act attending) tokens

def Block.run (kernels : Kernels K) (act : Activations K) (attending : Attending K)
    (frames bands : Nat) (grid : List (List (List K))) (block : Block K) :
    List (List (List K)) :=
  let timed := (Tensor.columns bands grid).map (block.time.run kernels act attending)
  (Tensor.columns frames timed).map (block.freq.run kernels act attending)

omit [LinearOrder K] in
theorem FeedForward.forward_spec (kernels : Kernels K) (act : Activations K) (ff : FeedForward K)
    {x : Tensor K} (lead : List Nat) (shape : x.shape = lead ++ [ff.dim]) :
    ∃ y, ff.forward kernels act x = .ok y ∧ y.shape = lead ++ [ff.dim] ∧
      ∀ i, Within i lead → y.row i = ff.run kernels act (x.row i) := by
  obtain ⟨normed, norming, normedShape, normedRow⟩ :=
    RmsNorm.forward_spec kernels ff.norm (x := x) lead (by rw [ff.normFits, shape])
  obtain ⟨wide, widening, wideShape, wideRow⟩ := ff.up.forward_row (x := normed) lead
    (by rw [normedShape, ff.normFits, ff.upFits])
  obtain ⟨y, narrowing, yShape, yRow⟩ := ff.down.forward_row (x := gelu act wide) lead
    (by rw [gelu_shape, wideShape, ff.downFits.1])
  rw [ff.downFits.2] at yShape
  refine ⟨y, ?_, yShape, fun i outer => ?_⟩
  · simp only [FeedForward.forward, norming, widening, narrowing, bind, Except.bind]
  · have bent : (gelu act wide).row i = (wide.row i).map _ :=
      Tensor.row_map _ lead _ wideShape outer
    rw [yRow i outer, bent, wideRow i outer, normedRow i outer]
    rfl

/-- One layer of a transformer, on the sequence of each item. -/
theorem Transformer.step_spec (kernels : Kernels K) (act : Activations K)
    (attending : Attending K) (layer : Attention K × FeedForward K) {x : Tensor K}
    {B N dim : Nat} (shape : x.shape = [B, N, dim]) (attends : layer.1.dim = dim)
    (deep : 0 < layer.1.dimHead) (feeds : layer.2.dim = dim) (places : 0 < N) :
    ∃ y, Transformer.step kernels act attending x layer = .ok y ∧ y.shape = [B, N, dim] ∧
      ∀ b < B, y.seq [b] = Transformer.turn kernels act attending (x.seq [b]) layer := by
  subst attends
  obtain ⟨attended, attend, attendedShape, attendedSeq⟩ :=
    layer.1.forward_spec kernels attending shape places deep
  obtain ⟨mid, added, midShape, mixed⟩ := Tensor.seq_zipWith (· + ·) [B] N _ attendedShape
    (shape.trans attendedShape.symm)
  obtain ⟨fed, feed, fedShape, fedRow⟩ := layer.2.forward_spec kernels act (x := mid) [B, N]
    (by rw [midShape, feeds]; rfl)
  rw [feeds] at fedShape
  obtain ⟨y, added', yShape, yRow⟩ := Tensor.row_zipWith (· + ·) [B, N] _ fedShape
    (midShape.trans fedShape.symm)
  refine ⟨y, ?_, yShape, fun b item => ?_⟩
  · simp only [Transformer.step, attend, added, feed, added', fitting, bind, Except.bind]
  · have one : Within [b] [B] := .cons item .nil
    have midSeq := mixed [b] one
    rw [attendedSeq b item] at midSeq
    rw [Transformer.turn, ← midSeq]
    apply Tensor.seq_of_rows [B] N _ _ midShape yShape ?_ one
    intro i within
    rw [yRow i within, fedRow i within]

/-- A transformer is what `run` says, on the sequence of each item. -/
theorem Transformer.forward_spec (kernels : Kernels K) (act : Activations K)
    (attending : Attending K) (transformer : Transformer K) {x : Tensor K} {B N : Nat}
    (shape : x.shape = [B, N, transformer.dim]) (places : 0 < N) :
    ∃ y, transformer.forward kernels act attending x = .ok y ∧ y.shape = [B, N, transformer.dim] ∧
      ∀ b < B, y.seq [b] = transformer.run kernels act attending (x.seq [b]) := by
  have fits := transformer.fits
  unfold Transformer.forward Transformer.run
  generalize transformer.layers = layers at fits
  -- By induction on the layers, each of which keeps the shape for the next.
  induction layers generalizing x with
  | nil => exact ⟨x, rfl, shape, fun _ _ => rfl⟩
  | cons layer layers ih =>
      obtain ⟨attends, deep, feeds⟩ := fits layer List.mem_cons_self
      obtain ⟨mid, step, midShape, midSeq⟩ :=
        Transformer.step_spec kernels act attending layer shape attends deep feeds places
      obtain ⟨y, rest, yShape, ySeq⟩ :=
        ih midShape fun later member => fits later (List.mem_cons_of_mem _ member)
      refine ⟨y, ?_, yShape, fun b item => ?_⟩
      · rw [List.foldlM_cons, step]
        exact rest
      · rw [ySeq b item, midSeq b item, List.foldl_cons]

theorem Block.forward_spec (kernels : Kernels K) (act : Activations K) (attending : Attending K)
    (block : Block K) {dim : Nat} (time : block.time.dim = dim) (freq : block.freq.dim = dim)
    {x : Tensor K} {B N W : Nat} (shape : x.shape = [B, N, W, dim]) (frames : 0 < N)
    (bands : 0 < W) :
    ∃ y, Block.forward kernels act attending B N W dim x block = .ok y ∧
      y.shape = [B, N, W, dim] ∧ ∀ b < B,
        y.grid [b] = Block.run kernels act attending N W (x.grid [b]) block := by
  -- Over the columns.
  obtain ⟨turned, turning, turnedShape, turnedGrid⟩ := Tensor.transposeMiddle_grid shape
  obtain ⟨packed, packing, packedShape, packedSeq⟩ := Tensor.foldLead_spec B W N dim turnedShape
  obtain ⟨timed, attend, timedShape, timedSeq⟩ :=
    block.time.forward_spec kernels act attending (packedShape.trans (by rw [time])) frames
  rw [time] at timedShape
  obtain ⟨apart, unpacking, apartShape, apartSeq⟩ := Tensor.unfoldLead_spec B W N dim timedShape
  obtain ⟨back, turning', backShape, backGrid⟩ := Tensor.transposeMiddle_grid apartShape
  -- Over the lines.
  obtain ⟨packed', packing', packedShape', packedSeq'⟩ := Tensor.foldLead_spec B N W dim backShape
  obtain ⟨mixed, attend', mixedShape, mixedSeq⟩ :=
    block.freq.forward_spec kernels act attending (packedShape'.trans (by rw [freq])) bands
  rw [freq] at mixedShape
  obtain ⟨y, unpacking', yShape, ySeq⟩ := Tensor.unfoldLead_spec B N W dim mixedShape
  refine ⟨y, ?_, yShape, fun b item => ?_⟩
  · simp only [Block.forward, turning, packing, attend, unpacking, turning', packing', attend',
      unpacking', fitting, bind, Except.bind]
  · have place : ∀ {wide k : Nat}, k < wide → b * wide + k < B * wide := by
      intro wide k below
      have : (b + 1) * wide ≤ B * wide := Nat.mul_le_mul_right _ item
      rw [Nat.succ_mul] at this
      omega
    have timedGrid : apart.grid [b] =
        (turned.grid [b]).map (block.time.run kernels act attending) := by
      apply Tensor.grid_of_seqs [B] W N dim dim turnedShape apartShape
      intro k below
      refine (apartSeq b k below).trans ?_
      rw [timedSeq _ (place below), packedSeq b k below]
      rfl
    have mixedGrid : y.grid [b] = (back.grid [b]).map (block.freq.run kernels act attending) := by
      apply Tensor.grid_of_seqs [B] N W dim dim backShape yShape
      intro n below
      refine (ySeq b n below).trans ?_
      rw [mixedSeq _ (place below), packedSeq' b n below]
      rfl
    rw [mixedGrid, backGrid b item, timedGrid, turnedGrid b item]
    rfl

def transformRun (kernels : Kernels K) (act : Activations K) (attending : Attending K)
    (blocks : List (Block K)) (finalNorm : RmsNorm K) (frames bands : Nat)
    (grid : List (List (List K))) : List (List (List K)) :=
  (blocks.foldl (Block.run kernels act attending frames bands) grid).map fun line =>
    line.map (finalNorm.apply kernels)

/-- Folded and put back in every block, the array is treated as the grid it is: each band's
column on its own, then each frame's line on its own, and no item of the batch with another. -/
theorem transform_spec (kernels : Kernels K) (act : Activations K) (attending : Attending K)
    {blocks : List (Block K)} {finalNorm : RmsNorm K} {dim : Nat}
    (fits : ∀ block ∈ blocks, block.time.dim = dim ∧ block.freq.dim = dim)
    (ends : finalNorm.width = dim) {x : Tensor K} {B N W : Nat}
    (shape : x.shape = [B, N, W, dim]) (frames : 0 < N) (bands : 0 < W) :
    ∃ y, transform kernels act attending blocks finalNorm x = .ok y ∧ y.shape = [B, N, W, dim] ∧
      ∀ b < B, y.grid [b] =
        transformRun kernels act attending blocks finalNorm N W (x.grid [b]) := by
  have run : ∃ mid, blocks.foldlM (Block.forward kernels act attending B N W dim) x = .ok mid ∧
      mid.shape = [B, N, W, dim] ∧ ∀ b < B, mid.grid [b] =
        blocks.foldl (Block.run kernels act attending N W) (x.grid [b]) := by
    clear ends
    induction blocks generalizing x with
    | nil => exact ⟨x, rfl, shape, fun _ _ => rfl⟩
    | cons block blocks ih =>
        obtain ⟨time, freq⟩ := fits block List.mem_cons_self
        obtain ⟨mid, step, midShape, midGrid⟩ :=
          Block.forward_spec kernels act attending block time freq shape frames bands
        obtain ⟨y, rest, yShape, yGrid⟩ :=
          ih (fun later member => fits later (List.mem_cons_of_mem _ member)) midShape
        refine ⟨y, ?_, yShape, fun b item => ?_⟩
        · rw [List.foldlM_cons, step]
          exact rest
        · rw [yGrid b item, midGrid b item, List.foldl_cons]
  obtain ⟨mid, ran, midShape, midGrid⟩ := run
  obtain ⟨y, norming, yShape, yRow⟩ :=
    RmsNorm.forward_spec kernels finalNorm (x := mid) [B, N, W] (midShape.trans (by rw [ends]; rfl))
  rw [ends] at yShape
  refine ⟨y, ?_, yShape, fun b item => ?_⟩
  · simp only [transform, shape, ran, bind, Except.bind]
    exact norming
  · rw [transformRun, ← midGrid b item]
    apply Tensor.grid_of_seqs [B] N W dim dim midShape yShape
    intro n frame
    exact Tensor.seq_of_rows [B, N] W dim dim midShape yShape (f := finalNorm.apply kernels) yRow
      (.cons item (.cons frame .nil))
end

/-- What the runtime computes, up to rounding. -/
noncomputable def realActivations : Activations ℝ where
  erf x := 2.0 / Real.sqrt Real.pi *
    tsum fun n : ℕ => (-1) ^ n * x ^ (2 * n + 1) / (n.factorial * (2 * n + 1 : ℕ))
  sigmoid v := 1 / (1 + Real.exp (-v))
  sqrt2 := Real.sqrt 2.0
  layerNorm values :=
    let mean := values.sum / values.length
    let variance := (values.map fun v => (v - mean) * (v - mean)).sum / values.length
    values.map fun v => (v - mean) / Real.sqrt (variance + 1e-5)
  layerNorm_length values := by rw [List.length_map]

noncomputable def evenFeedForward : FeedForward ℝ where
  dim := 1
  norm := evenNorm 1 1
  up := evenLinear 1 2 1
  down := evenLinear 2 1 1
  normFits := oneNorm_width
  upFits := rfl
  downFits := ⟨rfl, rfl⟩

noncomputable def polarTransformer : Transformer ℝ where
  dim := 1
  layers := [(polarAttention, evenFeedForward)]
  fits layer member := by
    rw [List.mem_singleton] at member
    subst member
    exact ⟨rfl, Nat.two_pos, rfl⟩

example :
    ∃ y, transform realKernels realActivations realAttending
        [⟨polarTransformer, polarTransformer⟩] (evenNorm 1 1) ⟨[1, 2, 2, 1], [1, 2, -3, 4], rfl⟩ =
          .ok y ∧ y.grid [0] = transformRun realKernels realActivations realAttending
        [⟨polarTransformer, polarTransformer⟩] (evenNorm 1 1) 2 2 [[[1], [2]], [[-3], [4]]] := by
  have fits : ∀ block ∈ [(⟨polarTransformer, polarTransformer⟩ : Block ℝ)],
      block.time.dim = 1 ∧ block.freq.dim = 1 := by
    intro block member
    rw [List.mem_singleton] at member
    subst member
    exact ⟨rfl, rfl⟩
  obtain ⟨y, transformed, -, grids⟩ := transform_spec realKernels realActivations realAttending
    fits (show (evenNorm 1 (1 : ℝ)).width = 1 from rfl)
    (x := ⟨[1, 2, 2, 1], [1, 2, -3, 4], rfl⟩) (B := 1) (N := 2) (W := 2) rfl (by decide)
    (by decide)
  exact ⟨y, transformed, grids 0 (by decide)⟩

end Stemd.Mlx.Roformer
