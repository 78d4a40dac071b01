import Mathlib.Algebra.Field.Basic
import Mathlib.Data.Rat.Cast.OfScientific
import Stemd.Mlx.OverlapAdd
import Stemd.Semantics.Convolution

/-! The convolutional blocks the two branches are built from.

The network thinks in channels-first and the convolutions are channels-last, so every one is
wrapped in a transpose on the way in and out. What is proved of a block is the shape it gives
for a shape it is given.

Loading a convolution checks its weight and takes its bias as it is stored: that a bias has one
entry a channel is what the artefact guarantees, and a field of the layer here. -/

set_option autoImplicit false

namespace Stemd.Mlx

open Stemd.Semantics

structure Activations (K : Type) where
  erf : K → K
  sigmoid : K → K
  sqrt2 : K
  layerNorm : List K → List K
  layerNorm_length : ∀ values, (layerNorm values).length = values.length

/-- A convolution over `[B, C, L]`. -/
structure Conv1d (K : Type) where
  chin : Nat
  chout : Nat
  kernel : Nat
  stride : Nat
  padding : Nat
  dilation : Nat
  weight : Tensor K
  weightShape : weight.shape = [chout, kernel, chin]
  bias : Option (Tensor K)
  -- Guaranteed by the artefact; loading does not check it.
  biasShape : ∀ b, bias = some b → b.shape = [chout]

/-- A transposed convolution over `[B, C, L]`. -/
structure ConvTranspose1d (K : Type) where
  chin : Nat
  chout : Nat
  kernel : Nat
  stride : Nat
  weight : Tensor K
  weightShape : weight.shape = [chout, kernel, chin]
  bias : Option (Tensor K)
  -- Guaranteed by the artefact; loading does not check it.
  biasShape : ∀ b, bias = some b → b.shape = [chout]

/-- A convolution over `[B, C, H, W]`. -/
structure Conv2d (K : Type) where
  chin : Nat
  chout : Nat
  kernel : Nat × Nat
  stride : Nat × Nat
  padding : Nat × Nat
  weight : Tensor K
  weightShape : weight.shape = [chout, kernel.1, kernel.2, chin]
  bias : Option (Tensor K)
  -- Guaranteed by the artefact; loading does not check it.
  biasShape : ∀ b, bias = some b → b.shape = [chout]

/-- A transposed convolution over `[B, C, H, W]`. -/
structure ConvTranspose2d (K : Type) where
  chin : Nat
  chout : Nat
  kernel : Nat × Nat
  stride : Nat × Nat
  weight : Tensor K
  weightShape : weight.shape = [chout, kernel.1, kernel.2, chin]
  bias : Option (Tensor K)
  -- Guaranteed by the artefact; loading does not check it.
  biasShape : ∀ b, bias = some b → b.shape = [chout]

structure GroupNorm (K : Type) where
  groups : Nat
  channels : Nat
  weight : Tensor K
  weightShape : weight.shape = [channels]
  bias : Tensor K
  biasShape : bias.shape = [channels]

structure LayerScale (K : Type) where
  channels : Nat
  scale : Tensor K
  scaleShape : scale.shape = [channels]

structure DConvBlock (K : Type) where
  conv1 : Conv1d K
  norm1 : GroupNorm K
  conv2 : Conv1d K
  norm2 : GroupNorm K
  scale : LayerScale K

structure DConv (K : Type) where
  blocks : List (DConvBlock K)

/-- Which domain a layer works in: `[B, C, F, T]` or `[B, C, T]`. -/
inductive Domain where
  | frequency
  | time
  deriving DecidableEq, Repr

inductive Conv (K : Type) where
  | freq (conv : Conv2d K)
  | time (conv : Conv1d K)

inductive ConvTr (K : Type) where
  | freq (conv : ConvTranspose2d K)
  | time (conv : ConvTranspose1d K)

structure EncLayer (K : Type) where
  conv : Conv K
  rewrite : Option (Conv K)
  dconv : Option (DConv K)
  domain : Domain
  stride : Nat
  empty : Bool

structure DecLayer (K : Type) where
  convTr : ConvTr K
  rewrite : Option (Conv K)
  dconv : Option (DConv K)
  domain : Domain
  chin : Nat
  pad : Nat
  last : Bool
  empty : Bool

section

variable {K : Type} [Field K]

def biased (bias : Option (Tensor K)) (y : Tensor K) : Except SpectralError (Tensor K) :=
  match bias with
  | some b => fitting (y.zipWith (· + ·) b)
  | none => .ok y

def Conv1d.forward (conv : Conv1d K) (x : Tensor K) : Except SpectralError (Tensor K) := do
  let x ← fitting (x.swapAxes 1 2)
  let y ← fitting (x.conv1d conv.weight conv.stride conv.padding conv.dilation)
  let y ← biased conv.bias y
  fitting (y.swapAxes 1 2)

def ConvTranspose1d.forward (conv : ConvTranspose1d K) (x : Tensor K) :
    Except SpectralError (Tensor K) := do
  let x ← fitting (x.swapAxes 1 2)
  let y ← fitting (x.convTranspose1d conv.weight conv.stride)
  let y ← biased conv.bias y
  fitting (y.swapAxes 1 2)

def toNhwc (x : Tensor K) : Except SpectralError (Tensor K) :=
  fitting (x.transposeAxes [0, 2, 3, 1])

def toNchw (x : Tensor K) : Except SpectralError (Tensor K) :=
  fitting (x.transposeAxes [0, 3, 1, 2])

def Conv2d.forward (conv : Conv2d K) (x : Tensor K) : Except SpectralError (Tensor K) := do
  let x ← toNhwc x
  let y ← fitting (x.conv2d conv.weight conv.stride conv.padding)
  let y ← biased conv.bias y
  toNchw y

def ConvTranspose2d.forward (conv : ConvTranspose2d K) (x : Tensor K) :
    Except SpectralError (Tensor K) := do
  let x ← toNhwc x
  let y ← fitting (x.convTranspose2d conv.weight conv.stride)
  let y ← biased conv.bias y
  toNchw y

/-- `vec![1; x.ndim()]` with the channels in place. -/
def perChannel (x : Tensor K) (channels : Nat) : List Nat :=
  (List.replicate x.shape.length 1).set 1 channels

def GroupNorm.forward (act : Activations K) (norm : GroupNorm K) (x : Tensor K) :
    Except SpectralError (Tensor K) := do
  let b :: c :: spatial := x.shape | throw .array
  let folded := c / norm.groups * spatial.prod
  let grouped ← fitting (x.reshape [b, norm.groups, folded])
  let normed ← fitting ((grouped.mapRows folded act.layerNorm).reshape x.shape)
  let weight ← fitting (norm.weight.reshape (perChannel x c))
  let bias ← fitting (norm.bias.reshape (perChannel x c))
  let scaled ← fitting (normed.zipWith (· * ·) weight)
  fitting (scaled.zipWith (· + ·) bias)

/-- `x * (1 + erf(x / sqrt(2))) / 2` -/
def gelu (act : Activations K) (x : Tensor K) : Tensor K :=
  x.map fun v => v * (1 + act.erf (v / act.sqrt2)) / 2.0

/-- Halve the channels, and gate with the sigmoid of the other half. -/
def glu (act : Activations K) (x : Tensor K) : Except SpectralError (Tensor K) := do
  let _ :: channels :: _ := x.shape | throw .array
  let half := channels / 2
  let a ← fitting (x.slice 1 0 half)
  let b ← fitting (x.slice 1 half channels)
  fitting (a.zipWith (· * ·) (b.map act.sigmoid))

def LayerScale.forward (layer : LayerScale K) (x : Tensor K) :
    Except SpectralError (Tensor K) := do
  let _ :: channels :: _ := x.shape | throw .array
  let scale ← fitting (layer.scale.reshape (perChannel x channels))
  fitting (x.zipWith (· * ·) scale)

/-- conv, norm, gelu, conv, norm, glu, scale, added to the input. -/
def DConvBlock.forward (act : Activations K) (block : DConvBlock K) (x : Tensor K) :
    Except SpectralError (Tensor K) := do
  let y ← block.conv1.forward x
  let y ← block.norm1.forward act y
  let y ← block.conv2.forward (gelu act y)
  let y ← block.norm2.forward act y
  let y ← glu act y
  let y ← block.scale.forward y
  fitting (x.zipWith (· + ·) y)

def DConv.forward (act : Activations K) (dconv : DConv K) (x : Tensor K) :
    Except SpectralError (Tensor K) :=
  dconv.blocks.foldlM (fun x block => block.forward act x) x

/-- The dilated branch is one-dimensional, so every frequency bin becomes a row of its own
before it runs. -/
def throughDconv (act : Activations K) (domain : Domain) (dconv : DConv K) (y : Tensor K) :
    Except SpectralError (Tensor K) :=
  match domain with
  | .time => dconv.forward act y
  | .frequency => do
      let [b, c, fr, t] := y.shape | throw .array
      let turned ← fitting (y.transposeAxes [0, 2, 1, 3])
      let folded ← fitting (turned.reshape [b * fr, c, t])
      let out ← dconv.forward act folded
      let apart ← fitting (out.reshape [b, fr, c, t])
      fitting (apart.transposeAxes [0, 2, 1, 3])

def Conv.forward (conv : Conv K) (x : Tensor K) : Except SpectralError (Tensor K) :=
  match conv with
  | .freq conv => conv.forward x
  | .time conv => conv.forward x

def ConvTr.forward (conv : ConvTr K) (x : Tensor K) : Except SpectralError (Tensor K) :=
  match conv with
  | .freq conv => conv.forward x
  | .time conv => conv.forward x

def rewritten (act : Activations K) (rewrite : Option (Conv K)) (y : Tensor K) :
    Except SpectralError (Tensor K) :=
  match rewrite with
  | some conv => do glu act (← conv.forward y)
  | none => .ok y

def dilated (act : Activations K) (domain : Domain) (dconv : Option (DConv K)) (y : Tensor K) :
    Except SpectralError (Tensor K) :=
  match dconv with
  | some dconv => throughDconv act domain dconv y
  | none => .ok y

def EncLayer.flattened (x : Tensor K) : Except SpectralError (Tensor K) :=
  match x.shape with
  | [b, _, _, t] => fitting (x.reshapeInfer [b] [t])
  | _ => .ok x

def EncLayer.strided (layer : EncLayer K) (x : Tensor K) : Except SpectralError (Tensor K) := do
  let (_, le) ← lastAxis x
  if le % layer.stride ≠ 0 then
    let extra : Int := layer.stride - (le % layer.stride : Nat)
    fitting (x.pad [(0, 0), (0, 0), (0, extra)])
  else .ok x

def EncLayer.prepared (layer : EncLayer K) (x : Tensor K) : Except SpectralError (Tensor K) :=
  match layer.domain with
  | .time => do layer.strided (← EncLayer.flattened x)
  | .frequency => .ok x

def injected (inject : Option (Tensor K)) (y : Tensor K) : Except SpectralError (Tensor K) :=
  match inject with
  | none => .ok y
  | some inject => do
      let inject ← match inject.shape, y.shape.length with
        | [b, c, t], 4 => fitting (inject.reshape [b, c, 1, t])
        | _, _ => .ok inject
      fitting (y.zipWith (· + ·) inject)

/-- One encoder step: strided convolution, activation, dilated branch, gated rewrite. -/
def EncLayer.forward (act : Activations K) (layer : EncLayer K) (x : Tensor K)
    (inject : Option (Tensor K)) : Except SpectralError (Tensor K) := do
  let x ← layer.prepared x
  let y ← layer.conv.forward x
  if layer.empty then return y
  let y ← injected inject y
  let y ← dilated act layer.domain layer.dconv (gelu act y)
  rewritten act layer.rewrite y

def DecLayer.unfolded (layer : DecLayer K) (x : Tensor K) : Except SpectralError (Tensor K) :=
  match layer.domain, x.shape with
  | .frequency, [b, _, t] => fitting (x.reshapeInfer [b, layer.chin] [t])
  | _, _ => .ok x

def DecLayer.merged (act : Activations K) (layer : DecLayer K) (x : Tensor K)
    (skip : Option (Tensor K)) : Except SpectralError (Tensor K) :=
  if layer.empty then .ok x
  else do
    let x ← match skip with
      | some skip => fitting (x.zipWith (· + ·) skip)
      | none => .ok x
    let x ← rewritten act layer.rewrite x
    dilated act layer.domain layer.dconv x

/-- The padding cut off again, or everything past the recorded length. -/
def DecLayer.cropped (layer : DecLayer K) (z : Tensor K) (length : Nat) :
    Except SpectralError (Tensor K) :=
  match layer.domain with
  | .frequency =>
      if layer.pad > 0 then
        match z.shape with
        | _ :: _ :: f :: _ => fitting (z.slice 2 layer.pad ((f : Int) - layer.pad))
        | _ => .error .array
      else .ok z
  | .time => fitting (z.slice 2 layer.pad (layer.pad + length))

/-- One decoder step: skip, gated rewrite, dilated branch, transposed convolution. Also the
value before the transposed convolution. -/
def DecLayer.forward (act : Activations K) (layer : DecLayer K) (x : Tensor K)
    (skip : Option (Tensor K)) (length : Nat) :
    Except SpectralError (Tensor K × Tensor K) := do
  let x ← layer.unfolded x
  let y ← layer.merged act x skip
  let z ← layer.convTr.forward y
  let z ← layer.cropped z length
  return (if layer.last then z else gelu act z, y)

def Yields (r : Except SpectralError (Tensor K)) (shape : List Nat) : Prop :=
  ∃ y, r = .ok y ∧ y.shape = shape

omit [Field K] in
theorem Yields.ok {y : Tensor K} {shape : List Nat} (has : y.shape = shape) :
    Yields (.ok y) shape := ⟨y, rfl, has⟩

omit [Field K] in
theorem Yields.bind {r : Except SpectralError (Tensor K)}
    {next : Tensor K → Except SpectralError (Tensor K)} {shape shape' : List Nat}
    (first : Yields r shape) (rest : ∀ y, y.shape = shape → Yields (next y) shape') :
    Yields (r >>= next) shape' := by
  obtain ⟨y, rfl, has⟩ := first
  exact rest y has

omit [Field K] in
theorem Yields.fits {o : Option (Tensor K)} {shape : List Nat} {y : Tensor K} (is : o = some y)
    (has : y.shape = shape) : Yields (fitting o) shape := ⟨y, by rw [is]; rfl, has⟩

theorem yields_zipWith (f : K → K → K) {x y : Tensor K} {shape : List Nat}
    (fits : Tensor.broadcast x.shape y.shape = some shape) :
    Yields (fitting (x.zipWith f y)) shape := by
  obtain ⟨z, zipped, has, -⟩ := Tensor.zipWith_spec f fits
  exact .fits zipped has

theorem yields_same (f : K → K → K) {x y : Tensor K} {shape : List Nat} (left : x.shape = shape)
    (right : y.shape = shape) : Yields (fitting (x.zipWith f y)) shape :=
  yields_zipWith f (by rw [left, right, Tensor.broadcast_self])

theorem yields_reshape {x : Tensor K} (shape : List Nat) (same : shape.prod = x.shape.prod) :
    Yields (fitting (x.reshape shape)) shape := by
  obtain ⟨y, reshaped, has, -⟩ := x.reshape_spec shape same
  exact .fits reshaped has

theorem yields_transposeMiddle {x : Tensor K} {a b c d : Nat} (shape : x.shape = [a, b, c, d]) :
    Yields (fitting (x.transposeAxes [0, 2, 1, 3])) [a, c, b, d] := by
  obtain ⟨y, transposed, has, -⟩ := Tensor.transposeMiddle_spec shape
  exact .fits transposed has

theorem yields_swapLast {x : Tensor K} {a b c : Nat} (shape : x.shape = [a, b, c]) :
    Yields (fitting (x.swapAxes 1 2)) [a, c, b] := by
  obtain ⟨y, swapped, has, -⟩ := Tensor.swapLast_spec [a] b c shape
  have swapped' : x.swapAxes 1 2 = some y := swapped
  exact .fits swapped' has

theorem yields_slice {x : Tensor K} (front : List Nat) {dim : Nat} (back : List Nat)
    (shape : x.shape = front ++ dim :: back) (start count : Nat) {lo hi : Int}
    (low : lo = start) (high : hi = start + count) (inside : start + count ≤ dim) :
    Yields (fitting (x.slice front.length lo hi)) (front ++ count :: back) := by
  subst low high
  obtain ⟨y, cut, has, -⟩ := Tensor.slice_spec front dim back shape
    (show (0 : Int) ≤ start by omega) (show (start : Int) ≤ start + count by omega)
    (show (start : Int) + count ≤ dim by omega)
  have width : ((start : Int) + count - start).toNat = count := by omega
  rw [width] at has
  exact .fits cut has

theorem yields_nhwc {x : Tensor K} {a b c d : Nat} (shape : x.shape = [a, b, c, d]) :
    Yields (toNhwc x) [a, c, d, b] := by
  have rank : x.shape.length = 4 := by rw [shape]; rfl
  have order : [0, 2, 3, 1].Perm (List.range x.shape.length) := by
    rw [rank]
    decide
  obtain ⟨y, transposed, has, -⟩ := Tensor.transposeAxes_spec order
  exact .fits transposed (has.trans (by rw [shape]; rfl))

theorem yields_nchw {x : Tensor K} {a b c d : Nat} (shape : x.shape = [a, b, c, d]) :
    Yields (toNchw x) [a, d, b, c] := by
  have rank : x.shape.length = 4 := by rw [shape]; rfl
  have order : [0, 3, 1, 2].Perm (List.range x.shape.length) := by
    rw [rank]
    decide
  obtain ⟨y, transposed, has, -⟩ := Tensor.transposeAxes_spec order
  exact .fits transposed (has.trans (by rw [shape]; rfl))

theorem yields_biased {bias : Option (Tensor K)} {chout : Nat}
    (biasShape : ∀ b, bias = some b → b.shape = [chout]) {y : Tensor K} (lead : List Nat)
    (shape : y.shape = lead ++ [chout]) : Yields (biased bias y) (lead ++ [chout]) := by
  cases given : bias with
  | none => exact .ok shape
  | some b =>
      apply yields_zipWith
      rw [shape, biasShape b given, Tensor.broadcast_last]

theorem Conv1d.yields (conv : Conv1d K) {x : Tensor K} {b n : Nat} (count : Nat)
    (shape : x.shape = [b, conv.chin, n])
    (fits : windows n conv.kernel conv.stride conv.padding conv.dilation = some count) :
    Yields (conv.forward x) [b, conv.chout, count] := by
  apply (yields_swapLast shape).bind
  intro x shape
  obtain ⟨y, convolved, has⟩ := Tensor.conv1d_shape shape conv.weightShape fits
  apply (Yields.fits convolved has).bind
  intro y shape
  apply (yields_biased conv.biasShape [b, count] shape).bind
  intro y shape
  exact yields_swapLast shape

theorem ConvTranspose1d.yields (conv : ConvTranspose1d K) {x : Tensor K} {b n : Nat}
    (shape : x.shape = [b, conv.chin, n]) (nonempty : 0 < n) :
    Yields (conv.forward x) [b, conv.chout, (n - 1) * conv.stride + conv.kernel] := by
  apply (yields_swapLast shape).bind
  intro x shape
  obtain ⟨y, convolved, has⟩ :=
    Tensor.convTranspose1d_shape conv.stride shape conv.weightShape nonempty
  apply (Yields.fits convolved has).bind
  intro y shape
  apply (yields_biased conv.biasShape [b, _] shape).bind
  intro y shape
  exact yields_swapLast shape

theorem Conv2d.yields (conv : Conv2d K) {x : Tensor K} {b h w : Nat} (countHigh countWide : Nat)
    (shape : x.shape = [b, conv.chin, h, w])
    (high : windows h conv.kernel.1 conv.stride.1 conv.padding.1 1 = some countHigh)
    (wide : windows w conv.kernel.2 conv.stride.2 conv.padding.2 1 = some countWide) :
    Yields (conv.forward x) [b, conv.chout, countHigh, countWide] := by
  apply (yields_nhwc shape).bind
  intro x shape
  obtain ⟨y, convolved, has⟩ := Tensor.conv2d_shape shape conv.weightShape high wide
  apply (Yields.fits convolved has).bind
  intro y shape
  apply (yields_biased conv.biasShape [b, countHigh, countWide] shape).bind
  intro y shape
  exact yields_nchw shape

theorem ConvTranspose2d.yields (conv : ConvTranspose2d K) {x : Tensor K} {b h w : Nat}
    (shape : x.shape = [b, conv.chin, h, w]) (tall : 0 < h) (broad : 0 < w) :
    Yields (conv.forward x) [b, conv.chout, (h - 1) * conv.stride.1 + conv.kernel.1,
      (w - 1) * conv.stride.2 + conv.kernel.2] := by
  apply (yields_nhwc shape).bind
  intro x shape
  obtain ⟨y, convolved, has⟩ :=
    Tensor.convTranspose2d_shape conv.stride shape conv.weightShape tall broad
  apply (Yields.fits convolved has).bind
  intro y shape
  apply (yields_biased conv.biasShape [b, _, _] shape).bind
  intro y shape
  exact yields_nchw shape

theorem glu_yields (act : Activations K) {x : Tensor K} {b c : Nat} {rest : List Nat}
    (shape : x.shape = b :: 2 * c :: rest) : Yields (glu act x) (b :: c :: rest) := by
  have half : 2 * c / 2 = c := by omega
  unfold glu
  rw [shape]
  dsimp only
  rw [half]
  apply (yields_slice [b] rest shape 0 c rfl (by omega) (by omega)).bind
  intro left leftShape
  apply (yields_slice [b] rest shape c c rfl (by omega) (by omega)).bind
  intro right rightShape
  exact yields_same _ leftShape rightShape

theorem broadcast_channels (b c t : Nat) :
    Tensor.broadcast [b, c, t] [1, c, 1] = some [b, c, t] := by
  simp [Tensor.broadcast, Tensor.stretch]

omit [Field K] in
theorem perChannel_three {x : Tensor K} {b c t : Nat} (shape : x.shape = [b, c, t])
    (channels : Nat) : perChannel x channels = [1, channels, 1] := by
  rw [perChannel, shape]
  rfl

theorem GroupNorm.yields (act : Activations K) (norm : GroupNorm K) (single : norm.groups = 1)
    {x : Tensor K} {b t : Nat} (shape : x.shape = [b, norm.channels, t]) :
    Yields (norm.forward act x) [b, norm.channels, t] := by
  -- One group is all channels, so that a row of the folded array is everything of one example.
  have affine := perChannel_three shape norm.channels
  unfold GroupNorm.forward
  rw [shape]
  dsimp only
  rw [single, Nat.div_one, affine]
  have folded : [b, 1, norm.channels * [t].prod].prod = x.shape.prod := by
    rw [shape]
    simp
  apply (yields_reshape _ folded).bind
  intro grouped groupedShape
  obtain ⟨rowsShape, -⟩ := Tensor.mapRows_spec [b, 1] (norm.channels * [t].prod) groupedShape
    (norm.channels * [t].prod) act.layerNorm
  apply (yields_reshape _ (by rw [rowsShape]; simp)).bind
  intro normed normedShape
  apply (yields_reshape [1, norm.channels, 1]
    (by rw [norm.weightShape]; simp)).bind
  intro weight weightShape
  apply (yields_reshape [1, norm.channels, 1] (by rw [norm.biasShape]; simp)).bind
  intro bias biasShape
  apply (yields_zipWith _ (by rw [normedShape, weightShape, broadcast_channels])).bind
  intro scaled scaledShape
  exact yields_zipWith _ (by rw [scaledShape, biasShape, broadcast_channels])

theorem LayerScale.yields (layer : LayerScale K) {x : Tensor K} {b t : Nat}
    (shape : x.shape = [b, layer.channels, t]) :
    Yields (layer.forward x) [b, layer.channels, t] := by
  have affine := perChannel_three shape layer.channels
  unfold LayerScale.forward
  rw [shape]
  dsimp only
  rw [affine]
  apply (yields_reshape [1, layer.channels, 1]
    (by rw [layer.scaleShape]; simp)).bind
  intro scale scaleShape
  exact yields_zipWith _ (by rw [shape, scaleShape, broadcast_channels])

def Conv1d.dims (conv : Conv1d K) : Nat × Nat × Nat × Nat × Nat × Nat :=
  (conv.chin, conv.chout, conv.kernel, conv.stride, conv.padding, conv.dilation)

def Conv2d.dims (conv : Conv2d K) : Nat × Nat × (Nat × Nat) × (Nat × Nat) × (Nat × Nat) :=
  (conv.chin, conv.chout, conv.kernel, conv.stride, conv.padding)

structure DConvBlock.Fits (block : DConvBlock K) (channels : Nat) : Prop where
  conv1 : ∃ hidden dilation, block.conv1.dims = (channels, hidden, 3, 1, dilation, dilation) ∧
    block.norm1.channels = hidden ∧ block.conv2.dims = (hidden, 2 * channels, 1, 1, 0, 1)
  norm1 : block.norm1.groups = 1
  norm2 : block.norm2.groups = 1 ∧ block.norm2.channels = 2 * channels
  scale : block.scale.channels = channels

def DConv.Fits (dconv : DConv K) (channels : Nat) : Prop :=
  ∀ block ∈ dconv.blocks, block.Fits channels

/-- The convolution that moves along the first axis after the channels. -/
def Conv.Strided (conv : Conv K) (domain : Domain) (chin chout kernel stride padding : Nat) :
    Prop :=
  match domain, conv with
  | .frequency, .freq conv =>
      conv.dims = (chin, chout, (kernel, 1), (stride, 1), (padding, 0))
  | .time, .time conv => conv.dims = (chin, chout, kernel, stride, padding, 1)
  | _, _ => False

/-- The convolution that looks `context` to every side, over frequency and time alike. -/
def Conv.Square (conv : Conv K) (domain : Domain) (chin chout context : Nat) : Prop :=
  match domain, conv with
  | .frequency, .freq conv => conv.dims =
      (chin, chout, (1 + 2 * context, 1 + 2 * context), (1, 1), (context, context))
  | .time, .time conv => conv.dims = (chin, chout, 1 + 2 * context, 1, context, 1)
  | _, _ => False

def ConvTr.Strided (conv : ConvTr K) (domain : Domain) (chin chout kernel stride : Nat) : Prop :=
  match domain, conv with
  | .frequency, .freq conv => conv.chin = chin ∧ conv.chout = chout ∧
      conv.kernel = (kernel, 1) ∧ conv.stride = (stride, 1)
  | .time, .time conv => conv.chin = chin ∧ conv.chout = chout ∧ conv.kernel = kernel ∧
      conv.stride = stride
  | _, _ => False

/-- The layer that `load` builds when it is padded and not empty. -/
structure EncLayer.Fits (layer : EncLayer K) (domain : Domain)
    (chin chout kernel stride context : Nat) : Prop where
  inDomain : layer.domain = domain
  hop : layer.stride = stride
  empty : layer.empty = false
  conv : layer.conv.Strided domain chin chout kernel stride (kernel / 4)
  rewrite : ∃ conv, layer.rewrite = some conv ∧ conv.Square domain chout (2 * chout) context
  dconv : ∀ dconv, layer.dconv = some dconv → dconv.Fits chout

structure DecLayer.Fits (layer : DecLayer K) (domain : Domain)
    (chin chout kernel stride context : Nat) : Prop where
  inDomain : layer.domain = domain
  pad : layer.pad = kernel / 4
  empty : layer.empty = false
  convTr : layer.convTr.Strided domain chin chout kernel stride
  rewrite : ∃ conv, layer.rewrite = some conv ∧ conv.Square domain chin (2 * chin) context
  dconv : ∀ dconv, layer.dconv = some dconv → dconv.Fits chin

def Domain.shape (domain : Domain) (b channels high wide : Nat) : List Nat :=
  match domain with
  | .frequency => [b, channels, high, wide]
  | .time => [b, channels, wide]

theorem gelu_shape (act : Activations K) (x : Tensor K) : (gelu act x).shape = x.shape := rfl

theorem DConvBlock.yields (act : Activations K) {block : DConvBlock K} {channels : Nat}
    (fits : block.Fits channels) {x : Tensor K} {b t : Nat} (shape : x.shape = [b, channels, t])
    (nonempty : 0 < t) : Yields (block.forward act x) [b, channels, t] := by
  obtain ⟨hidden, dilation, first, normed, second⟩ := fits.conv1
  simp only [Conv1d.dims, Prod.mk.injEq] at first second
  obtain ⟨chin, chout, kernel, stride, padding, dilation'⟩ := first
  obtain ⟨chin', chout', kernel', stride', padding', dilation''⟩ := second
  -- Neither convolution moves: three taps reach one dilation either way, one tap nowhere.
  have wide : windows t 3 1 dilation dilation = some t := by
    have same : windows t 3 1 (dilation * 1) dilation = some t :=
      windows_same t 1 dilation nonempty
    rwa [Nat.mul_one] at same
  have narrow : windows t 1 1 0 1 = some t := windows_same t 0 1 nonempty
  apply (block.conv1.yields t (chin ▸ shape)
    (by rw [kernel, stride, padding, dilation', wide])).bind
  intro y yShape
  rw [chout, ← normed] at yShape
  apply (block.norm1.yields act fits.norm1 yShape).bind
  intro y yShape
  apply (block.conv2.yields (x := gelu act y) t
    (by rw [gelu_shape, yShape, chin', normed])
    (by rw [kernel', stride', padding', dilation'', narrow])).bind
  intro y yShape
  rw [chout', ← fits.norm2.2] at yShape
  apply (block.norm2.yields act fits.norm2.1 yShape).bind
  intro y yShape
  rw [fits.norm2.2] at yShape
  apply (glu_yields act yShape).bind
  intro y yShape
  apply (block.scale.yields (yShape.trans (by rw [fits.scale]))).bind
  intro y yShape
  exact yields_same _ shape (yShape.trans (by rw [fits.scale]))

theorem DConv.yields (act : Activations K) {dconv : DConv K} {channels : Nat}
    (fits : dconv.Fits channels) {x : Tensor K} {b t : Nat} (shape : x.shape = [b, channels, t])
    (nonempty : 0 < t) : Yields (dconv.forward act x) [b, channels, t] := by
  unfold DConv.forward
  unfold DConv.Fits at fits
  -- By induction on the blocks, each of which keeps the shape for the next.
  generalize dconv.blocks = blocks at fits
  induction blocks generalizing x with
  | nil => exact .ok shape
  | cons block blocks ih =>
      rw [List.foldlM_cons]
      apply (DConvBlock.yields act (fits block List.mem_cons_self) shape nonempty).bind
      intro y yShape
      exact ih yShape fun later member => fits later (List.mem_cons_of_mem _ member)

theorem dilated_yields (act : Activations K) {domain : Domain} {dconv : Option (DConv K)}
    {channels : Nat} (fits : ∀ branch, dconv = some branch → branch.Fits channels) {y : Tensor K}
    {b high wide : Nat} (shape : y.shape = domain.shape b channels high wide)
    (nonempty : 0 < wide) :
    Yields (dilated act domain dconv y) (domain.shape b channels high wide) := by
  cases given : dconv with
  | none => exact .ok shape
  | some branch =>
      cases domain with
      | time => exact DConv.yields act (fits branch given) shape nonempty
      | frequency =>
          have shape : y.shape = [b, channels, high, wide] := shape
          simp only [dilated, throughDconv, shape]
          apply (yields_transposeMiddle shape).bind
          intro turned turnedShape
          -- Bins become rows and become bins again, and the branch sees one axis of time.
          apply (yields_reshape [b * high, channels, wide]
            (by rw [turnedShape]; simp [Nat.mul_assoc])).bind
          intro folded foldedShape
          apply (DConv.yields act (fits branch given) foldedShape nonempty).bind
          intro out outShape
          apply (yields_reshape [b, high, channels, wide]
            (by rw [outShape]; simp [Nat.mul_assoc])).bind
          intro apart apartShape
          exact yields_transposeMiddle apartShape

theorem rewritten_yields (act : Activations K) {domain : Domain} {rewrite : Option (Conv K)}
    {channels context : Nat}
    (fits : ∃ conv, rewrite = some conv ∧ conv.Square domain channels (2 * channels) context)
    {y : Tensor K} {b high wide : Nat} (shape : y.shape = domain.shape b channels high wide)
    (tall : 0 < high) (broad : 0 < wide) :
    Yields (rewritten act rewrite y) (domain.shape b channels high wide) := by
  obtain ⟨conv, rfl, square⟩ := fits
  -- The rewrite looks as far as it is padded and so keeps every length.
  have same : ∀ n, 0 < n → windows n (1 + 2 * context) 1 context 1 = some n := by
    intro n positive
    have here := windows_same n context 1 positive
    rwa [Nat.one_mul] at here
  cases domain with
  | time =>
      cases conv with
      | freq conv => cases square
      | time conv =>
          simp only [Conv.Square, Conv1d.dims, Prod.mk.injEq] at square
          obtain ⟨chin, chout, kernel, stride, padding, dilation⟩ := square
          apply (conv.yields wide (chin ▸ shape)
            (by rw [kernel, stride, padding, dilation, same wide broad])).bind
          intro y yShape
          exact glu_yields act (yShape.trans (by rw [chout]))
  | frequency =>
      cases conv with
      | time conv => cases square
      | freq conv =>
          simp only [Conv.Square, Conv2d.dims, Prod.mk.injEq] at square
          obtain ⟨chin, chout, kernel, stride, padding⟩ := square
          apply (conv.yields high wide (chin ▸ shape)
            (by rw [kernel, stride, padding, same high tall])
            (by rw [kernel, stride, padding, same wide broad])).bind
          intro y yShape
          exact glu_yields act (yShape.trans (by rw [chout]))

theorem windows_quarter {m : Nat} (nonempty : 0 < m) : windows (4 * m) 8 4 2 1 = some m := by
  rw [windows, if_pos (by omega)]
  congr 1
  omega

theorem EncLayer.strided_yields {layer : EncLayer K} (hop : layer.stride = 4) {x : Tensor K}
    {b c n : Nat} (shape : x.shape = [b, c, n]) :
    Yields (layer.strided x) [b, c, 4 * ((n + 3) / 4)] := by
  have axis : lastAxis x = .ok (2, n) :=
    lastAxis_eq (show x.shape = [b, c] ++ [n] from shape)
  simp only [EncLayer.strided, axis, hop, bind, Except.bind]
  split
  · next ragged =>
      obtain ⟨y, padded, has, -⟩ := Tensor.padLast_spec [b, c] n shape
        (show (0 : Int) ≤ 0 by omega) (show (0 : Int) ≤ (4 : Nat) - (n % 4 : Nat) by omega)
      have whole : (0 : Int).toNat + n + (((4 : Nat) : Int) - (n % 4 : Nat)).toNat =
          4 * ((n + 3) / 4) := by omega
      rw [whole] at has
      exact .fits padded has
  · next even =>
      have whole : n = 4 * ((n + 3) / 4) := by omega
      exact .ok (shape.trans (congrArg (fun n => [b, c, n]) whole))

/-- What an encoder layer does after its convolution. -/
theorem EncLayer.rest_yields (act : Activations K) {layer : EncLayer K} {domain : Domain}
    {chin chout kernel stride context : Nat}
    (fits : layer.Fits domain chin chout kernel stride context) {x y : Tensor K}
    (prepared : layer.prepared x = .ok y) {b high wide : Nat}
    (convolved : Yields (layer.conv.forward y) (domain.shape b chout high wide))
    (tall : 0 < high) (broad : 0 < wide) :
    Yields (layer.forward act x none) (domain.shape b chout high wide) := by
  simp only [EncLayer.forward, prepared, fits.empty]
  apply convolved.bind
  intro z zShape
  apply (Yields.ok zShape).bind
  intro z zShape
  rw [fits.inDomain]
  apply (dilated_yields act (y := gelu act z) fits.dconv zShape broad).bind
  intro z zShape
  exact rewritten_yields act fits.rewrite zShape tall broad

theorem EncLayer.yields_time (act : Activations K) {layer : EncLayer K}
    {chin chout context : Nat} (fits : layer.Fits .time chin chout 8 4 context) {x : Tensor K}
    {b n : Nat} (shape : x.shape = [b, chin, n]) (nonempty : 0 < n) :
    Yields (layer.forward act x none) [b, chout, (n + 3) / 4] := by
  obtain ⟨y, padded, yShape⟩ := EncLayer.strided_yields fits.hop shape
  -- Three axes are not flattened, only padded.
  have prepared : layer.prepared x = .ok y := by
    simp only [EncLayer.prepared, fits.inDomain, EncLayer.flattened, shape]
    exact padded
  -- A layer's convolution is of the layer's own domain.
  have strided := fits.conv
  cases held : layer.conv with
  | freq conv =>
      rw [held] at strided
      cases strided
  | time conv =>
      rw [held] at strided
      simp only [Conv.Strided, Conv1d.dims, Prod.mk.injEq] at strided
      obtain ⟨chinIs, choutIs, kernel, stride, padding, dilation⟩ := strided
      have convolved : Yields (layer.conv.forward y) [b, chout, (n + 3) / 4] := by
        rw [held, ← choutIs]
        apply conv.yields _ (chinIs ▸ yShape)
        rw [kernel, stride, padding, dilation]
        exact windows_quarter (by omega)
      exact EncLayer.rest_yields act fits prepared
        (show Yields _ (Domain.shape .time b chout 1 _) from convolved) (by omega) (by omega)

theorem EncLayer.yields_frequency (act : Activations K) {layer : EncLayer K}
    {chin chout context : Nat} (fits : layer.Fits .frequency chin chout 8 4 context)
    {x : Tensor K} {b f w : Nat} (shape : x.shape = [b, chin, 4 * f, w]) (tall : 0 < f)
    (broad : 0 < w) : Yields (layer.forward act x none) [b, chout, f, w] := by
  have prepared : layer.prepared x = .ok x := by
    simp only [EncLayer.prepared, fits.inDomain]
  have strided := fits.conv
  cases held : layer.conv with
  | time conv =>
      rw [held] at strided
      cases strided
  | freq conv =>
      rw [held] at strided
      simp only [Conv.Strided, Conv2d.dims, Prod.mk.injEq] at strided
      obtain ⟨chinIs, choutIs, kernel, stride, padding⟩ := strided
      have narrow : windows w 1 1 0 1 = some w := windows_same w 0 1 broad
      have convolved : Yields (layer.conv.forward x) [b, chout, f, w] := by
        rw [held, ← choutIs]
        apply conv.yields _ _ (chinIs ▸ shape)
        · rw [kernel, stride, padding]
          exact windows_quarter tall
        · rw [kernel, stride, padding, narrow]
      exact EncLayer.rest_yields act fits prepared convolved tall broad

theorem DecLayer.merged_yields (act : Activations K) {layer : DecLayer K} {domain : Domain}
    {chin chout kernel stride context : Nat}
    (fits : layer.Fits domain chin chout kernel stride context) {x skip : Tensor K}
    {b high wide : Nat} (shape : x.shape = domain.shape b chin high wide)
    (same : skip.shape = x.shape) (tall : 0 < high) (broad : 0 < wide) :
    Yields (layer.merged act x (some skip)) (domain.shape b chin high wide) := by
  simp only [DecLayer.merged, fits.empty]
  apply (yields_same _ shape (same.trans shape)).bind
  intro y yShape
  apply (rewritten_yields act fits.rewrite yShape tall broad).bind
  intro y yShape
  rw [← fits.inDomain] at yShape ⊢
  exact dilated_yields act fits.dconv yShape broad

theorem DecLayer.forward_of {act : Activations K} {layer : DecLayer K} {x x' : Tensor K}
    {skip : Option (Tensor K)} {length : Nat} {merged cropped : List Nat}
    (unfolded : layer.unfolded x = .ok x') (before : Yields (layer.merged act x' skip) merged)
    (after : ∀ y, y.shape = merged →
      Yields (layer.convTr.forward y >>= fun z => layer.cropped z length) cropped) :
    ∃ z y, layer.forward act x skip length = .ok (z, y) ∧ z.shape = cropped := by
  obtain ⟨y, merging, yShape⟩ := before
  obtain ⟨z, cropping, zShape⟩ := after y yShape
  refine ⟨if layer.last then z else gelu act z, y, ?_, ?_⟩
  · unfold DecLayer.forward
    rw [unfolded]
    simp only [bind, Except.bind] at cropping ⊢
    rw [merging]
    dsimp only
    cases convolved : layer.convTr.forward y with
    | error e =>
        rw [convolved] at cropping
        cases cropping
    | ok w =>
        rw [convolved] at cropping
        dsimp only at cropping ⊢
        rw [cropping]
        rfl
  · split
    · exact zShape
    · exact zShape

theorem DecLayer.yields_time (act : Activations K) {layer : DecLayer K}
    {chin chout context : Nat} (fits : layer.Fits .time chin chout 8 4 context)
    {x skip : Tensor K} {b m : Nat} (length : Nat) (shape : x.shape = [b, chin, m])
    (same : skip.shape = x.shape) (nonempty : 0 < m) (inside : length ≤ 4 * m) :
    ∃ z y, layer.forward act x (some skip) length = .ok (z, y) ∧ z.shape = [b, chout, length] := by
  have unfolded : layer.unfolded x = .ok x := by
    simp only [DecLayer.unfolded, fits.inDomain]
  have row : x.shape = Domain.shape .time b chin 1 m := shape
  have merged := DecLayer.merged_yields act fits row same (by omega) nonempty
  apply DecLayer.forward_of unfolded merged
  intro y yShape
  have strided := fits.convTr
  cases held : layer.convTr with
  | freq conv =>
      rw [held] at strided
      cases strided
  | time conv =>
      rw [held] at strided
      obtain ⟨chinIs, choutIs, kernel, stride⟩ := strided
      apply (conv.yields (chinIs ▸ yShape) nonempty).bind
      intro z zShape
      rw [choutIs, kernel, stride] at zShape
      simp only [DecLayer.cropped, fits.inDomain, fits.pad]
      -- The output is `4 * m + 4` long: two are cut in front, and whatever the encoder rounded up.
      exact yields_slice [b, chout] [] zShape 2 length rfl rfl (by omega)

theorem DecLayer.yields_frequency (act : Activations K) {layer : DecLayer K}
    {chin chout context : Nat} (fits : layer.Fits .frequency chin chout 8 4 context)
    {x skip : Tensor K} {b f w : Nat} (length : Nat) (shape : x.shape = [b, chin, f, w])
    (same : skip.shape = x.shape) (tall : 0 < f) (broad : 0 < w) :
    ∃ z y, layer.forward act x (some skip) length = .ok (z, y) ∧
      z.shape = [b, chout, 4 * f, w] := by
  have unfolded : layer.unfolded x = .ok x := by
    simp only [DecLayer.unfolded, fits.inDomain, shape]
  have merged := DecLayer.merged_yields act fits shape same tall broad
  apply DecLayer.forward_of unfolded merged
  intro y yShape
  have strided := fits.convTr
  cases held : layer.convTr with
  | time conv =>
      rw [held] at strided
      cases strided
  | freq conv =>
      rw [held] at strided
      obtain ⟨chinIs, choutIs, kernel, stride⟩ := strided
      apply (conv.yields (chinIs ▸ yShape) tall broad).bind
      intro z zShape
      have wide : (w - 1) * 1 + 1 = w := by omega
      rw [choutIs, kernel, stride] at zShape
      dsimp only at zShape
      rw [wide] at zShape
      simp only [DecLayer.cropped, fits.inDomain, fits.pad, zShape]
      -- Two of the `4 * f + 4` bins go at either end.
      exact yields_slice [b, chout] [w] zShape 2 (4 * f) rfl (by omega) (by omega)

end

end Stemd.Mlx
