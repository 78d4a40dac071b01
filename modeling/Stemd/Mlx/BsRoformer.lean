import Stemd.Mlx.Blocks
import Stemd.Mlx.Roformer
import Stemd.Mlx.Weights

/-! The band-split model whole: built from an artefact, and run on a chunk of audio.

What a loader returns fits the configuration by its type, so that nothing is left to go wrong in
a model that was loaded but the audio it is given. -/

set_option autoImplicit false

namespace Stemd.Mlx.Roformer

open Stemd.Semantics

inductive Positional where
  | rope
  | pope
  deriving DecidableEq, Repr

structure Architecture extends Config where
  depth : Nat
  heads : Nat
  dimHead : Nat
  ffMult : Nat
  /-- Samples in one chunk, which is what the model was trained at. -/
  chunk : Nat
  positional : Positional
  deep : 0 < dimHead
  /-- Rotary turns pairs. -/
  even : 2 ∣ dimHead
  size : 0 < nFft
  hops : 0 < hop

/-- Fine at the bottom, coarse at the top. -/
def defaultBands : List Nat :=
  ([(2, 24), (4, 12), (12, 8), (24, 8), (48, 8)].flatMap fun (width, count) =>
    List.replicate count width) ++ [128, 129]

def Architecture.default : Architecture where
  dim := 512
  audioChannels := 2
  nFft := 2048
  hop := 441
  bands := defaultBands
  maskExpansion := 4
  depth := 12
  heads := 8
  dimHead := 64
  ffMult := 4
  chunk := 352800
  positional := .rope
  deep := by decide
  even := by decide
  size := by decide
  hops := by decide

/-- This architecture at half the width. -/
def Architecture.polarformer : Architecture :=
  { Architecture.default with
    dim := 256
    hop := 512
    chunk := 588800
    positional := .pope
    hops := by decide }

section

variable {K : Type}

/-- Which variant an artefact is, asked of its tensors. -/
def Architecture.of (w : Weights K) : Architecture :=
  if (w.scope "layers.0.0.layers.0.0").has "pope_embed.inv_freqs" then .polarformer else .default

def RmsNorm.load (s : Scope K) (dim : Nat) :
    Except LoadError { norm : RmsNorm K // norm.width = dim } := do
  let gamma ← s.getShaped "gamma" [dim]
  return ⟨⟨dim, gamma.1, gamma.2⟩, rfl⟩

variable [Zero K]

def turned (t : Tensor K) {a b : Nat} (shape : t.shape = [a, b]) :
    { y : Tensor K // t.transposeAxes [1, 0] = some y ∧ y.shape = [b, a] } :=
  have rank : t.shape.length = 2 := by rw [shape]; rfl
  have order : [1, 0].Perm (List.range t.shape.length) := by
    rw [rank]
    decide
  have is : t.transposeAxes [1, 0] = some _ := if_pos order
  ⟨_, is, by rw [Tensor.build_shape, shape]; rfl⟩

def Linear.load (s : Scope K) (chin chout : Nat) :
    Except LoadError { linear : Linear K // linear.chin = chin ∧ linear.chout = chout } := do
  let weight ← s.getShaped "weight" [chout, chin]
  let bias ← s.optional "bias" [chout]
  let weight := turned weight.1 weight.2
  return ⟨⟨chin, chout, weight.1, weight.2.2, bias.1, bias.2⟩, rfl, rfl⟩

def Pope.load (s : Scope K) (heads dimHead : Nat) :
    Except LoadError { pope : Pope K // pope.heads = heads ∧ pope.dimHead = dimHead } := do
  let s := s.child "pope_embed"
  let invFreqs ← s.getShaped "inv_freqs" [dimHead]
  let bias ← s.getShaped "bias" [heads, dimHead]
  return ⟨⟨heads, dimHead, invFreqs.1, invFreqs.2, bias.1, bias.2⟩, rfl, rfl⟩

def Pope.loadFor (s : Scope K) (config : Architecture) : Except LoadError
    { pope : Option (Pope K) // ∀ p, pope = some p →
      p.heads = config.heads ∧ p.dimHead = config.dimHead } :=
  match config.positional with
  | .rope => .ok ⟨none, by
      intro p none
      cases none⟩
  | .pope => do
      let pope ← Pope.load s config.heads config.dimHead
      return ⟨some pope.1, by
        rintro p ⟨⟩
        exact pope.2⟩

def Attention.load (s : Scope K) (config : Architecture) : Except LoadError
    { attention : Attention K // attention.dim = config.dim ∧ attention.dimHead = config.dimHead } := do
  let inner := config.heads * config.dimHead
  let norm ← RmsNorm.load (s.child "norm") config.dim
  let qkv ← Linear.load (s.child "to_qkv") config.dim (inner * 3)
  let gates ← Linear.load (s.child "to_gates") config.dim config.heads
  let out ← Linear.load (s.child "to_out.0") inner config.dim
  let pope ← Pope.loadFor s config
  return ⟨⟨config.dim, config.heads, config.dimHead, norm.1, qkv.1, gates.1, out.1, pope.1, norm.2,
    qkv.2, gates.2, out.2, pope.2⟩, rfl, rfl⟩

def FeedForward.load (s : Scope K) (config : Architecture) :
    Except LoadError { ff : FeedForward K // ff.dim = config.dim } := do
  let inner := config.dim * config.ffMult
  let norm ← RmsNorm.load (s.child "net.0") config.dim
  let up ← Linear.load (s.child "net.1") config.dim inner
  let down ← Linear.load (s.child "net.4") inner config.dim
  return ⟨⟨config.dim, norm.1, up.1, down.1, norm.2, up.2.1, down.2.1.trans up.2.2.symm, down.2.2⟩,
    rfl⟩

abbrev Layer (K : Type) (config : Architecture) :=
  { layer : Attention K × FeedForward K //
    layer.1.dim = config.dim ∧ layer.1.dimHead = config.dimHead ∧ layer.2.dim = config.dim }

def Transformer.loadLayer (s : Scope K) (config : Architecture) (index : Nat) :
    Except LoadError (Layer K config) := do
  let s := (s.child "layers").child (toString index)
  let attention ← Attention.load (s.child "0") config
  let ff ← FeedForward.load (s.child "1") config
  return ⟨(attention.1, ff.1), attention.2.1, attention.2.2, ff.2⟩

def Transformer.load (s : Scope K) (config : Architecture) (depth : Nat) :
    Except LoadError { transformer : Transformer K // transformer.dim = config.dim } := do
  let layers ← (List.range depth).mapM (Transformer.loadLayer s config)
  return ⟨⟨config.dim, layers.map Subtype.val, by
    intro layer member
    obtain ⟨loaded, -, rfl⟩ := List.mem_map.mp member
    exact ⟨loaded.2.1, loaded.2.2.1.symm ▸ config.deep, loaded.2.2.2⟩⟩, rfl⟩

def BandSplit.loadBands (s : Scope K) (dim : Nat) : (widths : List Nat) → Nat → Except LoadError
    { bands : List (RmsNorm K × Linear K) // List.Forall₂ (fun band width =>
      band.1.width = width ∧ band.2.chin = width ∧ band.2.chout = dim) bands widths }
  | [], _ => .ok ⟨[], .nil⟩
  | width :: widths, index => do
      let scope := s.child (toString index)
      let norm ← RmsNorm.load (scope.child "0") width
      let project ← Linear.load (scope.child "1") width dim
      let rest ← BandSplit.loadBands s dim widths (index + 1)
      return ⟨(norm.1, project.1) :: rest.1, .cons ⟨norm.2, project.2⟩ rest.2⟩

def BandSplit.load (s : Scope K) (config : Config) : Except LoadError (BandSplit config K) := do
  let bands ← BandSplit.loadBands s config.dim config.bandFeatures 0
  return ⟨bands.1, bands.2⟩

def MaskEstimator.loadBands (s : Scope K) (dim hidden : Nat) :
    (widths : List Nat) → Nat → Except LoadError
      { bands : List (Linear K × Linear K) // List.Forall₂ (fun band width =>
        band.1.chin = dim ∧ band.1.chout = hidden ∧ band.2.chin = band.1.chout ∧
          band.2.chout = width * 2) bands widths }
  | [], _ => .ok ⟨[], .nil⟩
  | width :: widths, index => do
      let scope := (s.child (toString index)).child "0"
      let up ← Linear.load (scope.child "0") dim hidden
      let down ← Linear.load (scope.child "2") hidden (width * 2)
      let rest ← MaskEstimator.loadBands s dim hidden widths (index + 1)
      return ⟨(up.1, down.1) :: rest.1,
        .cons ⟨up.2.1, up.2.2, down.2.1.trans up.2.2.symm, down.2.2⟩ rest.2⟩

def MaskEstimator.load (s : Scope K) (config : Config) :
    Except LoadError (MaskEstimator config K) := do
  let bands ← MaskEstimator.loadBands s config.dim (config.dim * config.maskExpansion)
    config.bandFeatures 0
  return ⟨bands.1, bands.2⟩

end

structure BsRoformer (config : Architecture) (K : Type) where
  stft : Stft K
  bandSplit : BandSplit config.toConfig K
  blocks : List (Block K)
  finalNorm : RmsNorm K
  mask : MaskEstimator config.toConfig K
  checked : config.check = .ok ()
  stftFits : stft.nFft = config.nFft ∧ stft.hop = config.hop
  blocksFit : ∀ block ∈ blocks, block.time.dim = config.dim ∧ block.freq.dim = config.dim
  normFits : finalNorm.width = config.dim

section

variable {K : Type} [Field K]

abbrev LoadedBlock (K : Type) (config : Architecture) :=
  { block : Block K // block.time.dim = config.dim ∧ block.freq.dim = config.dim }

def Block.load (s : Scope K) (config : Architecture) (index : Nat) :
    Except LoadError (LoadedBlock K config) := do
  let scope := s.child (toString index)
  let time ← Transformer.load (scope.child "0") config 1
  let freq ← Transformer.load (scope.child "1") config 1
  return ⟨⟨time.1, freq.1⟩, time.2, freq.2⟩

def BsRoformer.load (cosine : Nat → Nat → K) (w : Weights K) (config : Architecture) :
    Except LoadError (BsRoformer config K) := do
  let checked ← (attested config.check).mapError .bands
  let blocks ← (List.range config.depth).mapM (Block.load (w.scope "layers") config)
  let bandSplit ← BandSplit.load (w.scope "band_split.to_features") config.toConfig
  let finalNorm ← RmsNorm.load (w.scope "final_norm") config.dim
  let mask ← MaskEstimator.load (w.scope "mask_estimators.0.to_freqs") config.toConfig
  return {
    stft := .new cosine config.nFft config.hop
    bandSplit := bandSplit
    blocks := blocks.map Subtype.val
    finalNorm := finalNorm.1
    mask := mask
    checked := checked.2
    stftFits := ⟨rfl, rfl⟩
    blocksFit := by
      intro block member
      obtain ⟨loaded, -, rfl⟩ := List.mem_map.mp member
      exact loaded.2
    normFits := finalNorm.2 }

inductive ForwardError where
  /-- `this model separates {}-channel audio, not {channels}` -/
  | channels (expected given : Nat)
  | array (error : SpectralError)
  deriving DecidableEq, Repr

/-- The parts of a row that mlx and the standard library compute. -/
structure Runtime (K : Type) where
  fourier : Fourier K
  kernels : Kernels K
  act : Activations K
  attending : Attending K

def BsRoformer.estimate {config : Architecture} [LinearOrder K] (runtime : Runtime K)
    (model : BsRoformer config K) (real imag : Tensor K) : Except SpectralError (Tensor K) := do
  let flat ← interleave real imag
  let x ← model.bandSplit.forward runtime.kernels flat
  let x ← transform runtime.kernels runtime.act runtime.attending model.blocks model.finalNorm x
  model.mask.forward runtime.kernels x

def BsRoformer.separate {config : Architecture} [LinearOrder K] (runtime : Runtime K)
    (model : BsRoformer config K) (audio : Tensor K) (samples : Nat) :
    Except SpectralError (Tensor K) := do
  let z ← model.stft.forward runtime.fourier audio true
  let real := z.map Complex64.re
  let imag := z.map Complex64.im
  let mask ← model.estimate runtime real imag
  apply runtime.fourier model.stft config.toConfig mask real imag samples

/-- Separate one chunk. `[B, C, T]` in, `[B, C, T]` of vocals out. -/
def BsRoformer.forward {config : Architecture} [LinearOrder K] (runtime : Runtime K)
    (model : BsRoformer config K) (audio : Tensor K) : Except ForwardError (Tensor K) :=
  match audio.shape with
  | _ :: channels :: samples :: _ =>
      if channels ≠ config.audioChannels then .error (.channels config.audioChannels channels)
      else (model.separate runtime audio samples).mapError .array
  | _ => .error (.array .array)

def RmsNorm.Stored (s : Scope K) (dim : Nat) : Prop := s.Has "gamma" [dim]

def Linear.Stored (s : Scope K) (chin chout : Nat) : Prop :=
  s.Has "weight" [chout, chin] ∧ s.May "bias" [chout]

def Pope.Stored (s : Scope K) (config : Architecture) : Prop :=
  match config.positional with
  | .rope => True
  | .pope => (s.child "pope_embed").Has "inv_freqs" [config.dimHead] ∧
      (s.child "pope_embed").Has "bias" [config.heads, config.dimHead]

def Attention.Stored (s : Scope K) (config : Architecture) : Prop :=
  let inner := config.heads * config.dimHead
  RmsNorm.Stored (s.child "norm") config.dim ∧
    Linear.Stored (s.child "to_qkv") config.dim (inner * 3) ∧
    Linear.Stored (s.child "to_gates") config.dim config.heads ∧
    Linear.Stored (s.child "to_out.0") inner config.dim ∧ Pope.Stored s config

def FeedForward.Stored (s : Scope K) (config : Architecture) : Prop :=
  let inner := config.dim * config.ffMult
  RmsNorm.Stored (s.child "net.0") config.dim ∧
    Linear.Stored (s.child "net.1") config.dim inner ∧
    Linear.Stored (s.child "net.4") inner config.dim

def Transformer.Stored (s : Scope K) (config : Architecture) (depth : Nat) : Prop :=
  ∀ index ∈ List.range depth,
    Attention.Stored (((s.child "layers").child (toString index)).child "0") config ∧
    FeedForward.Stored (((s.child "layers").child (toString index)).child "1") config

def BandSplit.Stored (s : Scope K) (dim : Nat) : List Nat → Nat → Prop
  | [], _ => True
  | width :: widths, index =>
      RmsNorm.Stored ((s.child (toString index)).child "0") width ∧
        Linear.Stored ((s.child (toString index)).child "1") width dim ∧
        BandSplit.Stored s dim widths (index + 1)

def MaskEstimator.Stored (s : Scope K) (dim hidden : Nat) : List Nat → Nat → Prop
  | [], _ => True
  | width :: widths, index =>
      Linear.Stored (((s.child (toString index)).child "0").child "0") dim hidden ∧
        Linear.Stored (((s.child (toString index)).child "0").child "2") hidden (width * 2) ∧
        MaskEstimator.Stored s dim hidden widths (index + 1)

def Block.Stored (s : Scope K) (config : Architecture) (index : Nat) : Prop :=
  Transformer.Stored ((s.child (toString index)).child "0") config 1 ∧
    Transformer.Stored ((s.child (toString index)).child "1") config 1

def BsRoformer.Stored (w : Weights K) (config : Architecture) : Prop :=
  config.bands.sum = config.bins ∧
    (∀ index ∈ List.range config.depth, Block.Stored (w.scope "layers") config index) ∧
    BandSplit.Stored (w.scope "band_split.to_features") config.dim config.bandFeatures 0 ∧
    RmsNorm.Stored (w.scope "final_norm") config.dim ∧
    MaskEstimator.Stored (w.scope "mask_estimators.0.to_freqs") config.dim
      (config.dim * config.maskExpansion) config.bandFeatures 0

omit [Field K] in
theorem RmsNorm.load_loads (s : Scope K) (dim : Nat) :
    Loads s.weights (RmsNorm.Stored s dim) (RmsNorm.load s dim) :=
  (s.getShaped_loads "gamma" [dim]).done _

theorem Linear.load_loads (s : Scope K) (chin chout : Nat) :
    Loads s.weights (Linear.Stored s chin chout) (Linear.load s chin chout) :=
  (s.getShaped_loads "weight" [chout, chin]).bind fun _ =>
    (s.optional_loads "bias" [chout]).done _

omit [Field K] in
theorem Pope.loadFor_loads (s : Scope K) (config : Architecture) :
    Loads s.weights (Pope.Stored s config) (Pope.loadFor s config) := by
  unfold Pope.loadFor Pope.Stored
  cases config.positional with
  | rope => exact .ok _
  | pope =>
      have loaded := ((s.child "pope_embed").getShaped_loads "inv_freqs" [config.dimHead]).bind
        fun invFreqs => ((s.child "pope_embed").getShaped_loads "bias"
          [config.heads, config.dimHead]).done fun bias =>
            (⟨⟨config.heads, config.dimHead, invFreqs.1, invFreqs.2, bias.1, bias.2⟩, rfl, rfl⟩ :
              { pope : Pope K // pope.heads = config.heads ∧ pope.dimHead = config.dimHead })
      exact loaded.done _

theorem Attention.load_loads (s : Scope K) (config : Architecture) :
    Loads s.weights (Attention.Stored s config) (Attention.load s config) :=
  (RmsNorm.load_loads (s.child "norm") _).bind fun _ =>
    (Linear.load_loads (s.child "to_qkv") _ _).bind fun _ =>
      (Linear.load_loads (s.child "to_gates") _ _).bind fun _ =>
        (Linear.load_loads (s.child "to_out.0") _ _).bind fun _ =>
          (Pope.loadFor_loads s config).done _

theorem FeedForward.load_loads (s : Scope K) (config : Architecture) :
    Loads s.weights (FeedForward.Stored s config) (FeedForward.load s config) :=
  (RmsNorm.load_loads (s.child "net.0") _).bind fun _ =>
    (Linear.load_loads (s.child "net.1") _ _).bind fun _ =>
      (Linear.load_loads (s.child "net.4") _ _).done _

theorem Transformer.load_loads (s : Scope K) (config : Architecture) (depth : Nat) :
    Loads s.weights (Transformer.Stored s config depth) (Transformer.load s config depth) := by
  refine Loads.done (Loads.mapM (fun index => ?_) (List.range depth)) _
  exact (Attention.load_loads (((s.child "layers").child (toString index)).child "0")
    config).bind fun _ => (FeedForward.load_loads
      (((s.child "layers").child (toString index)).child "1") config).done _

theorem BandSplit.loadBands_loads (s : Scope K) (dim : Nat) (widths : List Nat) (index : Nat) :
    Loads s.weights (BandSplit.Stored s dim widths index)
      (BandSplit.loadBands s dim widths index) := by
  induction widths generalizing index with
  | nil => exact .ok _
  | cons width widths ih =>
      exact (RmsNorm.load_loads ((s.child (toString index)).child "0") width).bind fun _ =>
        (Linear.load_loads ((s.child (toString index)).child "1") width dim).bind fun _ =>
          (ih (index + 1)).done _

theorem MaskEstimator.loadBands_loads (s : Scope K) (dim hidden : Nat) (widths : List Nat)
    (index : Nat) :
    Loads s.weights (MaskEstimator.Stored s dim hidden widths index)
      (MaskEstimator.loadBands s dim hidden widths index) := by
  induction widths generalizing index with
  | nil => exact .ok _
  | cons width widths ih =>
      exact (Linear.load_loads (((s.child (toString index)).child "0").child "0") _ _).bind
        fun _ => (Linear.load_loads (((s.child (toString index)).child "0").child "2") _ _).bind
          fun _ => (ih (index + 1)).done _

omit [Field K] in
theorem check_loads (w : Weights K) (config : Config) :
    Loads w (config.bands.sum = config.bins)
      ((attested config.check).mapError LoadError.bands) := by
  cases checked : attested config.check with
  | ok done =>
      have passed : config.check = .ok () := done.2
      unfold Config.check at passed
      split at passed
      · cases passed
      · next equal => exact not_not.mp equal
  | error uncovered =>
      -- The check is refused only where the sum differs.
      have refused := attested_error checked
      unfold Config.check at refused
      split at refused
      · next differs =>
          cases refused
          exact ⟨differs, differs⟩
      · cases refused

/-- An artefact loads exactly when every tensor the architecture names is there in its shape, and
what a refusal says is wrong with it is. -/
theorem BsRoformer.load_loads (cosine : Nat → Nat → K) (w : Weights K) (config : Architecture) :
    Loads w (BsRoformer.Stored w config) (BsRoformer.load cosine w config) := by
  have blocks : Loads w
      (∀ index ∈ List.range config.depth, Block.Stored (w.scope "layers") config index)
      ((List.range config.depth).mapM (Block.load (w.scope "layers") config)) := by
    refine Loads.mapM (fun index => ?_) _
    exact (Transformer.load_loads (((w.scope "layers").child (toString index)).child "0") config
      1).bind fun _ => (Transformer.load_loads
        (((w.scope "layers").child (toString index)).child "1") config 1).done _
  refine (check_loads w config.toConfig).bind fun _ => blocks.bind fun _ => ?_
  refine Loads.bind ?_ fun _ => (RmsNorm.load_loads (w.scope "final_norm") _).bind fun _ => ?_
  · exact (BandSplit.loadBands_loads (w.scope "band_split.to_features") _ _ 0).done _
  · have masks := (MaskEstimator.loadBands_loads (w.scope "mask_estimators.0.to_freqs") config.dim
      (config.dim * config.maskExpansion) config.bandFeatures 0).done fun bands =>
        (⟨bands.1, bands.2⟩ : MaskEstimator config.toConfig K)
    exact masks.done _

structure Pair {L : Type} [Zero L] (rest : List Nat) (B B' : Nat) (x x' : Tensor L)
    (alike : Nat → Nat → Prop) : Prop where
  left : x.shape = B :: rest
  right : x'.shape = B' :: rest
  alike : ∀ b b', b < B → b' < B' → alike b b' → Tensor.Alike rest x b x' b'

theorem stft_pair (fourier : Fourier K) (stft : Stft K) {audio audio' : Tensor K}
    {B B' C T : Nat} {same : Nat → Nat → Prop} (inputs : Pair [C, T] B B' audio audio' same)
    (long : stft.nFft / 2 < T) :
    ∃ z z' N, 0 < N ∧ N = (stft.nFft / 2 + T + stft.nFft / 2 - stft.nFft) / stft.hop + 1 ∧
      stft.forward fourier audio true = .ok z ∧ stft.forward fourier audio' true = .ok z' ∧
      Pair [C, stft.bins, N] B B' z z' same := by
  obtain ⟨padded, reflected, paddedShape, paddedEntry⟩ :=
    reflectPad_spec (show audio.shape = [B, C] ++ [T] from inputs.left) long long
  obtain ⟨padded', reflected', paddedShape', paddedEntry'⟩ :=
    reflectPad_spec (show audio'.shape = [B', C] ++ [T] from inputs.right) long long
  obtain ⟨z, forward, zShape, zEntry⟩ :=
    Stft.forward_spec fourier stft (show stft.centre audio true = .ok padded from reflected)
      paddedShape (by omega)
  obtain ⟨z', forward', zShape', zEntry'⟩ :=
    Stft.forward_spec fourier stft (show stft.centre audio' true = .ok padded' from reflected')
      paddedShape' (by omega)
  refine ⟨z, z', _, Nat.succ_pos _, rfl, forward, forward', zShape, zShape', ?_⟩
  intro b b' item item' alike j within
  obtain ⟨c, bin, f, rfl, channel, below, frame⟩ := Tensor.within_three within
  have places : f * stft.hop + stft.nFft ≤ stft.nFft / 2 + T + stft.nFft / 2 := by
    have := Nat.div_mul_le_self (stft.nFft / 2 + T + stft.nFft / 2 - stft.nFft) stft.hop
    have : f * stft.hop ≤
        (stft.nFft / 2 + T + stft.nFft / 2 - stft.nFft) / stft.hop * stft.hop :=
      Nat.mul_le_mul_right _ (by omega)
    omega
  have frames : stft.frame padded [b, c] f = stft.frame padded' [b', c] f := by
    unfold Stft.frame
    apply List.map_congr_left
    intro k member
    have sample := List.mem_range.mp member
    have inside : reflectIndex (stft.nFft / 2) T (f * stft.hop + k) < T := by
      unfold reflectIndex
      split_ifs <;> omega
    rw [paddedEntry [b, c] _ (.cons item (.cons channel .nil)) (by omega),
      paddedEntry' [b', c] _ (.cons item' (.cons channel .nil)) (by omega)]
    exact congrArg (· * _)
      (inputs.alike b b' item item' alike [c, _] (.cons channel (.cons inside .nil)))
  have here := zEntry [b, c] bin f (.cons item (.cons channel .nil)) below frame
  rw [frames, ← zEntry' [b', c] bin f (.cons item' (.cons channel .nil)) below frame] at here
  exact here

omit [Field K] in
theorem Pair.map {L M : Type} [Zero L] [Zero M] {rest : List Nat} {B B' : Nat}
    {x x' : Tensor L} {same : Nat → Nat → Prop} (pair : Pair rest B B' x x' same) (f : L → M) :
    Pair rest B B' (x.map f) (x'.map f) same := by
  refine ⟨pair.left, pair.right, fun b b' item item' alike j within => ?_⟩
  rw [Tensor.get_map f (pair.left ▸ List.Forall₂.cons item within),
    Tensor.get_map f (pair.right ▸ List.Forall₂.cons item' within)]
  exact congrArg f (pair.alike b b' item item' alike j within)

theorem interleave_pair {real real' imag imag' : Tensor K} {B B' C F N : Nat}
    {same : Nat → Nat → Prop} (reals : Pair [C, F, N] B B' real real' same)
    (imags : Pair [C, F, N] B B' imag imag' same) :
    ∃ flat flat', interleave real imag = .ok flat ∧ interleave real' imag' = .ok flat' ∧
      Pair [N, F * C * 2] B B' flat flat' same := by
  obtain ⟨flat, laid, flatShape, flatEntry⟩ := interleave_spec reals.left imags.left
  obtain ⟨flat', laid', flatShape', flatEntry'⟩ := interleave_spec reals.right imags.right
  refine ⟨flat, flat', laid, laid', flatShape, flatShape', ?_⟩
  intro b b' item item' alike j within
  obtain ⟨n, k, rfl, frame, below⟩ := Tensor.within_two within
  obtain ⟨⟨f, c, part⟩, ⟨⟨bin, channel, small⟩, is⟩, -⟩ := feature_unique below
  have bins : Within [c, f, n] [C, F, N] := .cons channel (.cons bin (.cons frame .nil))
  obtain ⟨re, im⟩ := flatEntry b c f n item channel bin frame
  obtain ⟨re', im'⟩ := flatEntry' b' c f n item' channel bin frame
  rw [← is]
  match part, small with
  | 0, _ => exact re.trans ((reals.alike b b' item item' alike _ bins).trans re'.symm)
  | 1, _ => exact im.trans ((imags.alike b b' item item' alike _ bins).trans im'.symm)

theorem bandSplit_pair (kernels : Kernels K) {config : Config} (split : BandSplit config K)
    (nonempty : config.bands ≠ []) {x x' : Tensor K} {B B' N : Nat} {same : Nat → Nat → Prop}
    (inputs : Pair [N, config.bandFeatures.sum] B B' x x' same) :
    ∃ y y', split.forward kernels x = .ok y ∧ split.forward kernels x' = .ok y' ∧
      Pair [N, config.bands.length, config.dim] B B' y y' same := by
  obtain ⟨y, splits, yShape, yEntry⟩ := split.forward_spec kernels nonempty inputs.left
  obtain ⟨y', splits', yShape', yEntry'⟩ := split.forward_spec kernels nonempty inputs.right
  refine ⟨y, y', splits, splits', yShape, yShape', ?_⟩
  intro b b' item item' alike j within
  obtain ⟨n, i, d, rfl, frame, band, below⟩ := Tensor.within_three within
  have wide : i < config.bandFeatures.length := by
    rwa [Config.bandFeatures, List.length_map]
  have bands : i < split.bands.length := by rwa [split.fits.length_eq]
  have at_band : split.bands[i]? = some split.bands[i] := List.getElem?_eq_getElem bands
  have at_width : config.bandFeatures[i]? = some config.bandFeatures[i] :=
    List.getElem?_eq_getElem wide
  -- The features of a band end where those of the next begin.
  have ends : (config.bandFeatures.take i).sum + config.bandFeatures[i] ≤
      config.bandFeatures.sum := by
    rw [← List.sum_take_succ _ _ wide]
    conv_rhs => rw [← List.take_append_drop (i + 1) config.bandFeatures, List.sum_append]
    exact Nat.le_add_right _ _
  rw [yEntry i _ _ at_band at_width b n d item frame below,
    yEntry' i _ _ at_band at_width b' n d item' frame below]
  refine congrArg (fun values => splitValue kernels _ values d) ?_
  unfold features
  apply List.map_congr_left
  intro k member
  have feature := List.mem_range.mp member
  exact inputs.alike b b' item item' alike [n, _] (.cons frame (.cons (by omega) .nil))

theorem estimator_pair (kernels : Kernels K) {config : Config} (mask : MaskEstimator config K)
    (nonempty : config.bands ≠ []) {x x' : Tensor K} {B B' N : Nat} {same : Nat → Nat → Prop}
    (inputs : Pair [N, config.bands.length, config.dim] B B' x x' same) :
    ∃ y y', mask.forward kernels x = .ok y ∧ mask.forward kernels x' = .ok y' ∧
      Pair [N, config.bandFeatures.sum] B B' y y' same := by
  obtain ⟨y, masks, yShape, yEntry⟩ := mask.forward_spec kernels nonempty inputs.left
  obtain ⟨y', masks', yShape', yEntry'⟩ := mask.forward_spec kernels nonempty inputs.right
  refine ⟨y, y', masks, masks', yShape, yShape', ?_⟩
  intro b b' item item' alike j within
  obtain ⟨n, k, rfl, frame, below⟩ := Tensor.within_two within
  obtain ⟨⟨i, p⟩, ⟨width, at_width, inside, is⟩, -⟩ := band_unique below
  obtain ⟨wide, -⟩ := List.getElem?_eq_some_iff.mp at_width
  have band : i < mask.bands.length := by rwa [mask.fits.length_eq]
  have count : i < config.bands.length := by rwa [Config.bandFeatures, List.length_map] at wide
  have at_band : mask.bands[i]? = some mask.bands[i] := List.getElem?_eq_getElem band
  have rows : x.row [b, n, i] = x'.row [b', n, i] :=
    Tensor.Alike.row [N, config.bands.length]
      (inputs.alike b b' item item' alike) inputs.left inputs.right
      (.cons frame (.cons count .nil))
  rw [← is, yEntry i _ _ at_band at_width b n p item frame inside,
    yEntry' i _ _ at_band at_width b' n p item' frame inside, rows]

variable [LinearOrder K]

theorem transform_pair (runtime : Runtime K) {blocks : List (Block K)} {finalNorm : RmsNorm K}
    {dim : Nat} (fits : ∀ block ∈ blocks, block.time.dim = dim ∧ block.freq.dim = dim)
    (ends : finalNorm.width = dim) {x x' : Tensor K} {B B' N W : Nat} {same : Nat → Nat → Prop}
    (inputs : Pair [N, W, dim] B B' x x' same) (frames : 0 < N) (bands : 0 < W) :
    ∃ y y', transform runtime.kernels runtime.act runtime.attending blocks finalNorm x = .ok y ∧
      transform runtime.kernels runtime.act runtime.attending blocks finalNorm x' = .ok y' ∧
      Pair [N, W, dim] B B' y y' same := by
  obtain ⟨y, transformed, yShape, yGrid⟩ := transform_spec runtime.kernels runtime.act
    runtime.attending fits ends inputs.left frames bands
  obtain ⟨y', transformed', yShape', yGrid'⟩ := transform_spec runtime.kernels runtime.act
    runtime.attending fits ends inputs.right frames bands
  refine ⟨y, y', transformed, transformed', yShape, yShape', ?_⟩
  intro b b' item item' alike
  apply Tensor.alike_of_grid yShape yShape'
  rw [yGrid b item, yGrid' b' item',
    (inputs.alike b b' item item' alike).grid inputs.left inputs.right]

omit [LinearOrder K] in
theorem maskedSpectrum_pair (config : Config) {mask mask' real real' imag imag' : Tensor K}
    {B B' N : Nat} {same : Nat → Nat → Prop}
    (masks : Pair [N, config.bins * config.audioChannels * 2] B B' mask mask' same)
    (reals : Pair [config.audioChannels, config.bins, N] B B' real real' same)
    (imags : Pair [config.audioChannels, config.bins, N] B B' imag imag' same) :
    ∃ z z', maskedSpectrum config mask real imag = .ok z ∧
      maskedSpectrum config mask' real' imag' = .ok z' ∧
      Pair [config.audioChannels, config.bins, N] B B' z z' same := by
  obtain ⟨z, masked, zShape, zEntry⟩ :=
    maskedSpectrum_spec config masks.left reals.left imags.left
  obtain ⟨z', masked', zShape', zEntry'⟩ :=
    maskedSpectrum_spec config masks.right reals.right imags.right
  refine ⟨z, z', masked, masked', zShape, zShape', ?_⟩
  intro b b' item item' alike j within
  obtain ⟨c, f, n, rfl, channel, bin, frame⟩ := Tensor.within_three within
  have place : ∀ part < 2, Within [n, feature config.audioChannels f c part]
      [N, config.bins * config.audioChannels * 2] := by
    intro part small
    refine .cons frame (.cons ?_ .nil)
    have plane := plane_lt bin channel
    unfold feature
    omega
  rw [zEntry b c f n item channel bin frame, zEntry' b' c f n item' channel bin frame,
    reals.alike b b' item item' alike _ within, imags.alike b b' item item' alike _ within,
    masks.alike b b' item item' alike _ (place 0 (by omega)),
    masks.alike b b' item item' alike _ (place 1 (by omega))]

theorem inverse_pair (fourier : Fourier K) (stft : Stft K) (size : 0 < stft.nFft)
    (hops : 0 < stft.hop) {z z' : Tensor (Complex64 K)} {B B' C F N : Nat}
    {same : Nat → Nat → Prop} (inputs : Pair [C, F, N] B B' z z' same) (frames : 0 < N)
    (T : Nat) :
    ∃ y y', stft.inverse fourier z T true = .ok y ∧ stft.inverse fourier z' T true = .ok y' ∧
      Pair [C, T] B B' y y' same := by
  have each : ∀ {z : Tensor (Complex64 K)} {B : Nat}, z.shape = [B, C, F, N] →
      ∃ y, stft.inverse fourier z T true = .ok y ∧ y.shape = [B, C] ++ [T] ∧
        ∀ i t, Within i [B, C] → t < T → y.get (i ++ [t]) =
          (∑ f ∈ Finset.range N, stft.placed (fourier.irfft stft.nFft
              (column z (fun _ v => v) i F f)) f (stft.nFft / 2 + t)) /
            max (windowSum stft.window stft.nFft stft.hop N (stft.nFft / 2 + t)) normFloor := by
    intro z B shape
    exact invertFrames_spec fourier stft size hops .ok (fun _ v => v)
      (show z.shape = [B, C] ++ [F, N] from shape) frames
      (fun flat flatShape => ⟨flat, rfl, flatShape, fun _ _ _ _ _ _ => rfl⟩)
      (fun _ => (T : Int) + 2 * (stft.nFft / 2 : Nat))
      (show _ = ((T + 2 * (stft.nFft / 2) : Nat) : Int) by push_cast; rfl)
      (show stft.nFft / 2 + T ≤ T + 2 * (stft.nFft / 2) by omega)
  obtain ⟨y, inverted, yShape, yEntry⟩ := each inputs.left
  obtain ⟨y', inverted', yShape', yEntry'⟩ := each inputs.right
  refine ⟨y, y', inverted, inverted', yShape, yShape', ?_⟩
  intro b b' item item' alike j within
  obtain ⟨c, t, rfl, channel, below⟩ := Tensor.within_two within
  have columns : ∀ f ∈ Finset.range N,
      column z (fun _ v => v) [b, c] F f = column z' (fun _ v => v) [b', c] F f := by
    intro f member
    unfold column
    apply List.map_congr_left
    intro bin inside
    exact inputs.alike b b' item item' alike [c, bin, f]
      (.cons channel (.cons (List.mem_range.mp inside) (.cons (Finset.mem_range.mp member) .nil)))
  have sums : ∑ f ∈ Finset.range N, stft.placed (fourier.irfft stft.nFft
        (column z (fun _ v => v) [b, c] F f)) f (stft.nFft / 2 + t) =
      ∑ f ∈ Finset.range N, stft.placed (fourier.irfft stft.nFft
        (column z' (fun _ v => v) [b', c] F f)) f (stft.nFft / 2 + t) := by
    refine Finset.sum_congr rfl fun f member => ?_
    rw [columns f member]
  have here := yEntry [b, c] t (.cons item (.cons channel .nil)) below
  rw [sums] at here
  exact here.trans (yEntry' [b', c] t (.cons item' (.cons channel .nil)) below).symm

theorem BsRoformer.separate_pair (runtime : Runtime K) {config : Architecture}
    (model : BsRoformer config K) {audio audio' : Tensor K} {B B' T : Nat}
    {same : Nat → Nat → Prop}
    (inputs : Pair [config.audioChannels, T] B B' audio audio' same)
    (long : config.nFft / 2 < T) :
    ∃ y y', model.separate runtime audio T = .ok y ∧ model.separate runtime audio' T = .ok y' ∧
      Pair [config.audioChannels, T] B B' y y' same := by
  obtain ⟨nFft, hop⟩ := model.stftFits
  have total := bandFeatures_sum model.checked
  have nonempty : config.bands ≠ [] := by
    intro empty
    have checked := model.checked
    simp [Config.check, empty, Config.bins] at checked
  have bands : 0 < config.bands.length := List.length_pos_iff.mpr nonempty
  have bins : model.stft.bins = config.bins := by rw [Stft.bins, Config.bins, nFft]
  obtain ⟨z, z', N, frames, -, forward, forward', spectra⟩ :=
    stft_pair runtime.fourier model.stft inputs (by rwa [nFft])
  rw [bins] at spectra
  have reals := spectra.map Complex64.re
  have imags := spectra.map Complex64.im
  obtain ⟨flat, flat', laid, laid', flats⟩ := interleave_pair reals imags
  rw [← total] at flats
  obtain ⟨x, x', splits, splits', xs⟩ :=
    bandSplit_pair runtime.kernels model.bandSplit nonempty flats
  obtain ⟨mixed, mixed', transformed, transformed', mixes⟩ :=
    transform_pair runtime model.blocksFit model.normFits xs frames bands
  obtain ⟨mask, mask', masks, masks', maskPair⟩ :=
    estimator_pair runtime.kernels model.mask nonempty mixes
  rw [total] at maskPair
  obtain ⟨w, w', masked, masked', ws⟩ :=
    maskedSpectrum_pair config.toConfig maskPair reals imags
  obtain ⟨y, y', inverted, inverted', ys⟩ := inverse_pair runtime.fourier model.stft
    (by rw [nFft]; exact config.size) (by rw [hop]; exact config.hops) ws frames T
  refine ⟨y, y', ?_, ?_, ys⟩
  · simp only [BsRoformer.separate, BsRoformer.estimate, forward, laid, splits, transformed, masks,
      apply, masked, inverted, bind, Except.bind]
  · simp only [BsRoformer.separate, BsRoformer.estimate, forward', laid', splits', transformed',
      masks', apply, masked', inverted', bind, Except.bind]

/-- A model takes every chunk of its own channels that is longer than half its window, gives back
the shape it was given, and refuses every other. -/
theorem BsRoformer.forward_spec (runtime : Runtime K) {config : Architecture}
    (model : BsRoformer config K) {audio : Tensor K} {B C T : Nat}
    (shape : audio.shape = [B, C, T]) :
    (C ≠ config.audioChannels →
      model.forward runtime audio = .error (.channels config.audioChannels C)) ∧
    (C = config.audioChannels → T ≤ config.nFft / 2 → model.forward runtime audio =
      .error (.array (.reflect (config.nFft / 2 : Nat) (config.nFft / 2 : Nat) T))) ∧
    (C = config.audioChannels → config.nFft / 2 < T →
      ∃ y, model.forward runtime audio = .ok y ∧ y.shape = [B, C, T]) := by
  refine ⟨fun differs => ?_, ?_, ?_⟩
  · simp only [BsRoformer.forward, shape]
    rw [if_pos differs]
  · rintro rfl short
    have axis : lastAxis audio = .ok (2, T) :=
      lastAxis_eq (show audio.shape = [B, config.audioChannels] ++ [T] from shape)
    -- The centring would reflect more than there is.
    have refused : model.stft.centre audio true =
        .error (.reflect (config.nFft / 2 : Nat) (config.nFft / 2 : Nat) T) := by
      rw [Stft.centre, if_pos rfl, model.stftFits.1]
      simp only [reflectPad, axis, bind, Except.bind]
      rw [if_pos (.inl (by omega))]
      rfl
    simp only [BsRoformer.forward, shape, ne_eq, not_true_eq_false, if_false,
      BsRoformer.separate, Stft.forward, refused, bind, Except.bind, Except.mapError]
  · rintro rfl long
    have inputs : Pair [config.audioChannels, T] B B audio audio fun b b' => b = b' :=
      ⟨shape, shape, by rintro b _ - - rfl j -; rfl⟩
    obtain ⟨y, y', separated, separated', pair⟩ := model.separate_pair runtime inputs long
    refine ⟨y, ?_, pair.left⟩
    simp only [BsRoformer.forward, shape, ne_eq, not_true_eq_false, if_false, separated,
      Except.mapError]

/-- An artefact that stores the architecture, and only such a one, gives a model, and one that
runs; any other is refused for something that is wrong with it. -/
theorem BsRoformer.load_then_forward (cosine : Nat → Nat → K) (runtime : Runtime K)
    (w : Weights K) (config : Architecture) :
    Settles
      (fun model : BsRoformer config K => BsRoformer.Stored w config ∧
        ∀ (audio : Tensor K) (B C T : Nat), audio.shape = [B, C, T] →
          ((∃ y, model.forward runtime audio = .ok y ∧ y.shape = [B, C, T]) ↔
            C = config.audioChannels ∧ config.nFft / 2 < T))
      (fun e => ¬ BsRoformer.Stored w config ∧ e.Holds w) (BsRoformer.load cosine w config) := by
  have loads := BsRoformer.load_loads cosine w config
  cases loaded : BsRoformer.load cosine w config with
  | error e =>
      rw [loaded] at loads
      exact loads
  | ok model =>
      rw [loaded] at loads
      refine ⟨loads, fun audio B C T shape => ?_⟩
      obtain ⟨other, short, runs⟩ := model.forward_spec runtime shape
      constructor
      · rintro ⟨y, forward, -⟩
        by_contra outside
        by_cases own : C = config.audioChannels
        · rw [short own (by omega)] at forward
          cases forward
        · rw [other own] at forward
          cases forward
      · rintro ⟨own, long⟩
        exact runs own long

end

def threeBins : Architecture where
  dim := 1
  audioChannels := 1
  nFft := 4
  hop := 2
  bands := [1, 2]
  maskExpansion := 2
  depth := 1
  heads := 1
  dimHead := 2
  ffMult := 2
  chunk := 4
  positional := .pope
  deep := by decide
  even := by decide
  size := by decide
  hops := by decide

/-- The transform of a real frame, and back: every bin but the first and the middle one stands for
two. -/
noncomputable def realFourier : Fourier ℝ where
  rfft samples := (List.range (samples.length / 2 + 1)).map fun (k : Nat) =>
    let angle (t : Nat) : ℝ := 2.0 * Real.pi * k * t / samples.length
    ⟨(samples.mapIdx fun t v => v * Real.cos (angle t)).sum,
      -(samples.mapIdx fun t v => v * Real.sin (angle t)).sum⟩
  irfft n spectrum := (List.range n).map fun (t : Nat) =>
    let angle (k : Nat) : ℝ := 2.0 * Real.pi * k * t / n
    (spectrum.mapIdx fun k v =>
      (if k = 0 ∨ 2 * k = n then 1 else 2.0) *
        (v.re * Real.cos (angle k) - v.im * Real.sin (angle k))).sum / n
  rfft_length samples := by rw [List.length_map, List.length_range]

noncomputable def realRuntime : Runtime ℝ :=
  ⟨realFourier, realKernels, realActivations, realAttending⟩

noncomputable def threeBinModel : BsRoformer threeBins ℝ where
  stft := .new (fun k n => Real.cos (2.0 * Real.pi * k / n)) 4 2
  bandSplit := ⟨[(evenNorm 2 1, evenLinear 2 1 1), (evenNorm 4 1, evenLinear 4 1 1)],
    .cons ⟨rfl, rfl, rfl⟩ (.cons ⟨rfl, rfl, rfl⟩ .nil)⟩
  blocks := [⟨polarTransformer, polarTransformer⟩]
  finalNorm := evenNorm 1 1
  mask := ⟨[(evenLinear 1 2 1, evenLinear 2 4 1), (evenLinear 1 2 1, evenLinear 2 8 1)],
    .cons ⟨rfl, rfl, rfl, rfl⟩ (.cons ⟨rfl, rfl, rfl, rfl⟩ .nil)⟩
  checked := rfl
  stftFits := ⟨rfl, rfl⟩
  blocksFit block member := by
    rw [List.mem_singleton] at member
    subst member
    exact ⟨rfl, rfl⟩
  normFits := oneNorm_width

end Stemd.Mlx.Roformer
