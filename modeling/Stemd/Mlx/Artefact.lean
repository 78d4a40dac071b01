import Stemd.Mlx.Segment

/-! htdemucs, built from an artefact.

Every weight is looked for by name and checked against the shape its layer expects. The biases of
the convolutions are taken as they come: that they are as long as their layers are wide is what the
converter answers for, and an artefact carries it. -/

set_option autoImplicit false

namespace Stemd.Mlx

open Stemd.Semantics

section

variable {K : Type}

/-- A bias beside a weight has an entry for each of its outputs. -/
def Weights.Biased (w : Weights K) : Prop :=
  ∀ path chout rest, (w.scope path).Has "weight" (chout :: rest) →
    (w.scope path).May "bias" [chout]

/-- The tensors of one file, as the converter writes them. -/
structure Artefact (K : Type) extends Weights K where
  biased : toWeights.Biased

theorem Loads.attested {α : Type} {w : Weights K} {stored : Prop} {first : Except LoadError α}
    (here : Loads w stored first) : Loads w stored (Stemd.Semantics.attested first) := by
  cases first with
  | error e => exact here
  | ok value => exact here

theorem Scope.has_of_getShaped {s : Scope K} {name : String} {shape : List Nat}
    {t : { t : Tensor K // t.shape = shape }} (found : s.getShaped name shape = .ok t) :
    s.Has name shape := by
  have loads := s.getShaped_loads name shape
  rw [found] at loads
  exact loads

def Scope.getHeld (s : Scope K) (name : String) (shape : List Nat) :
    Except LoadError { t : Tensor K // t.shape = shape ∧ s.Has name shape } := do
  let t ← attested (s.getShaped name shape)
  return ⟨t.1.1, t.1.2, Scope.has_of_getShaped t.2⟩

theorem Scope.getHeld_loads (s : Scope K) (name : String) (shape : List Nat) :
    Loads s.weights (s.Has name shape) (s.getHeld name shape) :=
  (s.getShaped_loads name shape).attested.done _

/-- `w.has("bias").then(|| w.get("bias"))`, which is not checked. -/
def Scope.bias (s : Scope K) (biased : s.weights.Biased) {chout : Nat} {rest : List Nat}
    (beside : s.Has "weight" (chout :: rest)) :
    { o : Option (Tensor K) // ∀ b, o = some b → b.shape = [chout] } :=
  ⟨s.weights.get (s.key "bias"), biased s.path chout rest beside⟩

def Conv1d.load (s : Scope K) (biased : s.weights.Biased)
    (chin chout kernel stride padding dilation : Nat) : Except LoadError
      { conv : Conv1d K // conv.dims = (chin, chout, kernel, stride, padding, dilation) } := do
  let weight ← s.getHeld "weight" [chout, kernel, chin]
  let bias := s.bias biased weight.2.2
  return ⟨⟨chin, chout, kernel, stride, padding, dilation, weight.1, weight.2.1, bias.1, bias.2⟩,
    rfl⟩

def ConvTranspose1d.load (s : Scope K) (biased : s.weights.Biased)
    (chin chout kernel stride : Nat) : Except LoadError { conv : ConvTranspose1d K //
      conv.chin = chin ∧ conv.chout = chout ∧ conv.kernel = kernel ∧ conv.stride = stride } := do
  let weight ← s.getHeld "weight" [chout, kernel, chin]
  let bias := s.bias biased weight.2.2
  return ⟨⟨chin, chout, kernel, stride, weight.1, weight.2.1, bias.1, bias.2⟩, rfl, rfl, rfl, rfl⟩

def Conv2d.load (s : Scope K) (biased : s.weights.Biased) (chin chout : Nat)
    (kernel stride padding : Nat × Nat) : Except LoadError
      { conv : Conv2d K // conv.dims = (chin, chout, kernel, stride, padding) } := do
  let weight ← s.getHeld "weight" [chout, kernel.1, kernel.2, chin]
  let bias := s.bias biased weight.2.2
  return ⟨⟨chin, chout, kernel, stride, padding, weight.1, weight.2.1, bias.1, bias.2⟩, rfl⟩

def ConvTranspose2d.load (s : Scope K) (biased : s.weights.Biased) (chin chout : Nat)
    (kernel stride : Nat × Nat) : Except LoadError { conv : ConvTranspose2d K //
      conv.chin = chin ∧ conv.chout = chout ∧ conv.kernel = kernel ∧ conv.stride = stride } := do
  let weight ← s.getHeld "weight" [chout, kernel.1, kernel.2, chin]
  let bias := s.bias biased weight.2.2
  return ⟨⟨chin, chout, kernel, stride, weight.1, weight.2.1, bias.1, bias.2⟩, rfl, rfl, rfl, rfl⟩

def GroupNorm.load (s : Scope K) (groups channels : Nat) : Except LoadError
    { norm : GroupNorm K // norm.groups = groups ∧ norm.channels = channels } := do
  let weight ← s.getHeld "weight" [channels]
  let bias ← s.getHeld "bias" [channels]
  return ⟨⟨groups, channels, weight.1, weight.2.1, bias.1, bias.2.1⟩, rfl, rfl⟩

def LayerScale.load (s : Scope K) (channels : Nat) :
    Except LoadError { layer : LayerScale K // layer.channels = channels } := do
  let scale ← s.getHeld "scale" [channels]
  return ⟨⟨channels, scale.1, scale.2.1⟩, rfl⟩

/-- A block is a sequence, whose activations carry nothing but occupy a place in it. -/
def DConvBlock.load (s : Scope K) (biased : s.weights.Biased) (channels hidden d : Nat) :
    Except LoadError { block : DConvBlock K // block.Fits channels } := do
  let dilation := 2 ^ d
  let b := ((s.child "layers").child (toString d)).child "layers"
  let conv1 ←
    Conv1d.load ((b.child "0").child "conv") biased channels hidden 3 1 dilation dilation
  let norm1 ← GroupNorm.load (b.child "1") 1 hidden
  let conv2 ← Conv1d.load ((b.child "3").child "conv") biased hidden (2 * channels) 1 1 0 1
  let norm2 ← GroupNorm.load (b.child "4") 1 (2 * channels)
  let scale ← LayerScale.load (b.child "6") channels
  return ⟨⟨conv1.1, norm1.1, conv2.1, norm2.1, scale.1⟩,
    ⟨hidden, dilation, conv1.2, norm1.2.2, conv2.2⟩, norm1.2.1, norm2.2, scale.2⟩

theorem DConv.fits_of_blocks {channels : Nat}
    (blocks : List { block : DConvBlock K // block.Fits channels }) :
    (DConv.mk (blocks.map Subtype.val)).Fits channels := by
  intro block member
  obtain ⟨loaded, -, rfl⟩ := List.mem_map.mp member
  exact loaded.2

def DConv.load (s : Scope K) (biased : s.weights.Biased) (channels depth compress : Nat) :
    Except LoadError { dconv : DConv K // dconv.Fits channels } := do
  let blocks ← (List.range depth).mapM
    (DConvBlock.load s biased channels (channels / compress))
  return ⟨⟨blocks.map Subtype.val⟩, DConv.fits_of_blocks blocks⟩

def Conv.loadStrided (s : Scope K) (biased : s.weights.Biased) (domain : Domain)
    (chin chout kernel stride padding : Nat) : Except LoadError
      { conv : Conv K // conv.Strided domain chin chout kernel stride padding } :=
  match domain with
  | .frequency => do
      let conv ← Conv2d.load s biased chin chout (kernel, 1) (stride, 1) (padding, 0)
      return ⟨.freq conv.1, conv.2⟩
  | .time => do
      let conv ← Conv1d.load s biased chin chout kernel stride padding 1
      return ⟨.time conv.1, conv.2⟩

def Conv.loadSquare (s : Scope K) (biased : s.weights.Biased) (domain : Domain)
    (chin chout context : Nat) : Except LoadError
      { conv : Conv K // conv.Square domain chin chout context } :=
  match domain with
  | .frequency => do
      let conv ← Conv2d.load s biased chin chout (1 + 2 * context, 1 + 2 * context) (1, 1)
        (context, context)
      return ⟨.freq conv.1, conv.2⟩
  | .time => do
      let conv ← Conv1d.load s biased chin chout (1 + 2 * context) 1 context 1
      return ⟨.time conv.1, conv.2⟩

def ConvTr.loadStrided (s : Scope K) (biased : s.weights.Biased) (domain : Domain)
    (chin chout kernel stride : Nat) : Except LoadError
      { conv : ConvTr K // conv.Strided domain chin chout kernel stride } :=
  match domain with
  | .frequency => do
      let conv ← ConvTranspose2d.load s biased chin chout (kernel, 1) (stride, 1)
      return ⟨.freq conv.1, conv.2⟩
  | .time => do
      let conv ← ConvTranspose1d.load s biased chin chout kernel stride
      return ⟨.time conv.1, conv.2⟩

theorem only_dconv {channels : Nat} (dconv : { dconv : DConv K // dconv.Fits channels }) :
    ∀ d, some dconv.1 = some d → d.Fits channels := by
  rintro _ ⟨⟩
  exact dconv.2

abbrev Dilated := Nat × Nat

/-- A layer that is padded and not empty, as every one is that is loaded. -/
def EncLayer.load (s : Scope K) (biased : s.weights.Biased) (chin chout kernel stride : Nat)
    (domain : Domain) (context : Nat) (dilated : Dilated) : Except LoadError
      { layer : EncLayer K // layer.Fits domain chin chout kernel stride context } := do
  let conv ←
    Conv.loadStrided (s.child "conv.conv") biased domain chin chout kernel stride (kernel / 4)
  let rewrite ← Conv.loadSquare (s.child "rewrite.conv") biased domain chout (2 * chout) context
  let dconv ← DConv.load (s.child "dconv") biased chout dilated.1 dilated.2
  return ⟨⟨conv.1, some rewrite.1, some dconv.1, domain, stride, false⟩,
    rfl, rfl, rfl, conv.2, ⟨rewrite.1, rfl, rewrite.2⟩, only_dconv dconv⟩

def DecLayer.load (s : Scope K) (biased : s.weights.Biased) (chin chout kernel stride : Nat)
    (domain : Domain) (last : Bool) (context : Nat) (dilated : Dilated) : Except LoadError
      { layer : DecLayer K // layer.Fits domain chin chout kernel stride context } := do
  let convTr ← ConvTr.loadStrided (s.child "conv_tr.conv") biased domain chin chout kernel stride
  let rewrite ← Conv.loadSquare (s.child "rewrite.conv") biased domain chin (2 * chin) context
  let dconv ← DConv.load (s.child "dconv") biased chin dilated.1 dilated.2
  return ⟨⟨convTr.1, some rewrite.1, some dconv.1, domain, chin, kernel / 4, last, false⟩,
    rfl, rfl, rfl, convTr.2, ⟨rewrite.1, rfl, rewrite.2⟩, only_dconv dconv⟩

end

namespace Transformer

section

variable {K : Type} [Zero K]

def LayerNorm.load (s : Scope K) (dim : Nat) :
    Except LoadError { norm : LayerNorm K // norm.dim = dim } := do
  let weight ← s.getHeld "weight" [dim]
  let bias ← s.getHeld "bias" [dim]
  return ⟨⟨dim, weight.1, weight.2.1, bias.1, bias.2.1⟩, rfl⟩

def OutNorm.load (s : Scope K) (dim : Nat) :
    Except LoadError { norm : OutNorm K // norm.dim = dim } := do
  let weight ← s.getHeld "weight" [dim]
  let bias ← s.getHeld "bias" [dim]
  return ⟨⟨dim, weight.1, weight.2.1, bias.1, bias.2.1⟩, rfl⟩

def LayerScale.load (s : Scope K) (dim : Nat) :
    Except LoadError { scale : LayerScale K // scale.dim = dim } := do
  let scale ← s.getHeld "scale" [dim]
  return ⟨⟨dim, scale.1, scale.2.1⟩, rfl⟩

def Linear.load (s : Scope K) (chin chout : Nat) :
    Except LoadError { linear : Linear K // linear.chin = chin ∧ linear.chout = chout } := do
  let weight ← s.getHeld "weight" [chout, chin]
  let weight := Roformer.turned weight.1 weight.2.1
  let bias ← s.getHeld "bias" [chout]
  return ⟨⟨chin, chout, weight.1, weight.2.2, bias.1, bias.2.1⟩, rfl, rfl⟩

def Attention.load (s : Scope K) (dim heads : Nat) : Except LoadError
    { attention : Attention K // attention.dim = dim ∧ attention.heads = heads } := do
  let query ← Linear.load (s.child "query_proj") dim dim
  let key ← Linear.load (s.child "key_proj") dim dim
  let value ← Linear.load (s.child "value_proj") dim dim
  let out ← Linear.load (s.child "out_proj") dim dim
  return ⟨⟨dim, query.1, key.1, value.1, out.1, heads, query.2, key.2, value.2, out.2⟩, rfl, rfl⟩

def LayerNorm.loadFor (s : Scope K) (dim : Nat) (cross : Bool) : Except LoadError
    { norm : Option (LayerNorm K) // norm.isSome = cross ∧ ∀ n, norm = some n → n.dim = dim } :=
  match cross with
  | false => .ok ⟨none, rfl, by
      intro n none
      cases none⟩
  | true => do
      let norm ← LayerNorm.load s dim
      return ⟨some norm.1, rfl, by
        rintro n ⟨⟩
        exact norm.2⟩

def Layer.load (s : Scope K) (dim heads ff : Nat) (cross : Bool) : Except LoadError
    { layer : Layer K // layer.dim = dim ∧ layer.attn.heads = heads ∧
      layer.norm3.isSome = cross } := do
  let attn ← Attention.load (s.child (if cross then "cross_attn" else "attn")) dim heads
  let norm1 ← LayerNorm.load (s.child "norm1") dim
  let norm2 ← LayerNorm.load (s.child "norm2") dim
  let norm3 ← LayerNorm.loadFor (s.child "norm3") dim cross
  let linear1 ← Linear.load (s.child "linear1") dim ff
  let linear2 ← Linear.load (s.child "linear2") ff dim
  let gamma1 ← LayerScale.load (s.child "gamma_1") dim
  let gamma2 ← LayerScale.load (s.child "gamma_2") dim
  let normOut ← OutNorm.load (s.child "norm_out.gn") dim
  return ⟨⟨dim, attn.1, norm1.1, norm2.1, norm3.1, linear1.1, linear2.1, gamma1.1, gamma2.1,
    normOut.1, attn.2.1, norm1.2, norm2.2, norm3.2.2, linear1.2.1,
    ⟨linear2.2.1.trans linear1.2.2.symm, linear2.2.2⟩, gamma1.2, gamma2.2, normOut.2⟩,
    rfl, attn.2.2, norm3.2.1⟩

abbrev Both (K : Type) (dim heads : Nat) :=
  { both : Layer K × Layer K // (both.1.dim = dim ∧ both.1.attn.heads = heads) ∧
    (both.2.dim = dim ∧ both.2.attn.heads = heads) ∧
    both.1.norm3.isSome = both.2.norm3.isSome }

def Both.load (s : Scope K) (dim heads ff idx : Nat) : Except LoadError (Both K dim heads) := do
  -- Even indices attend within a branch, odd across.
  let cross := idx % 2 == 1
  let layer ← Layer.load ((s.child "layers").child (toString idx)) dim heads ff cross
  let layerT ← Layer.load ((s.child "layers_t").child (toString idx)) dim heads ff cross
  return ⟨(layer.1, layerT.1), ⟨layer.2.1, layer.2.2.1⟩, ⟨layerT.2.1, layerT.2.2.1⟩,
    layer.2.2.2.trans layerT.2.2.2.symm⟩

omit [Zero K] in
theorem Both.alternate {dim heads : Nat} (both : List (Both K dim heads)) :
    List.Forall₂ (fun layer layerT : Layer K => layer.norm3.isSome = layerT.norm3.isSome)
      (both.map (·.1.1)) (both.map (·.1.2)) := by
  rw [List.forall₂_map_left_iff, List.forall₂_map_right_iff, List.forall₂_same]
  exact fun pair _ => pair.2.2.2

omit [Zero K] in
theorem Both.first {dim heads : Nat} (both : List (Both K dim heads)) :
    ∀ layer ∈ both.map (·.1.1), layer.dim = dim ∧ layer.attn.heads = heads := by
  intro layer member
  obtain ⟨pair, -, rfl⟩ := List.mem_map.mp member
  exact pair.2.1

omit [Zero K] in
theorem Both.second {dim heads : Nat} (both : List (Both K dim heads)) :
    ∀ layer ∈ both.map (·.1.2), layer.dim = dim ∧ layer.attn.heads = heads := by
  intro layer member
  obtain ⟨pair, -, rfl⟩ := List.mem_map.mp member
  exact pair.2.2.1

def CrossTransformer.load (s : Scope K) (dim heads ff depth : Nat) : Except LoadError
    { transformer : CrossTransformer K // transformer.dim = dim ∧ transformer.heads = heads } := do
  let both ← (List.range depth).mapM (Both.load s dim heads ff)
  let normIn ← LayerNorm.load (s.child "norm_in") dim
  let normInT ← LayerNorm.load (s.child "norm_in_t") dim
  return ⟨⟨normIn.1, normInT.1, both.map (·.1.1), both.map (·.1.2), dim, heads, normIn.2,
    normInT.2, Both.alternate both, Both.first both, Both.second both⟩, rfl, rfl⟩

end

end Transformer

namespace HtDemucs

section

variable {α β : Type} {fits : Nat → α → Prop}

theorem Stacked.none : Stacked ([] : List α) 0 fits :=
  ⟨rfl, fun i layer found => by cases found⟩

theorem Stacked.snoc {layers : List α} {depth : Nat} {layer : α}
    (before : Stacked layers depth fits) (here : fits depth layer) : Stacked (layers ++ [layer]) (depth + 1) fits := by
  obtain ⟨rfl, each⟩ := before
  refine ⟨List.length_append, fun i layer found => ?_⟩
  rw [List.getElem?_append] at found
  split at found
  · exact each i layer found
  · next past =>
    have last : i - layers.length = 0 := by
      obtain ⟨inside, -⟩ := List.getElem?_eq_some_iff.mp found
      rw [List.length_singleton] at inside
      omega
    rw [last] at found
    cases found
    obtain rfl : i = layers.length := by omega
    exact here

theorem Stacked.map {layers : List α} {depth : Nat} {fits' : Nat → β → Prop} (f : α → β)
    (stacked : Stacked layers depth fits) (each : ∀ i layer, fits i layer → fits' i (f layer)) :
    Stacked (layers.map f) depth fits' := by
  refine ⟨List.length_map f |>.trans stacked.1, fun i layer found => ?_⟩
  rw [List.getElem?_map] at found
  obtain ⟨before, here, rfl⟩ := Option.map_eq_some_iff.mp found
  exact each i before (stacked.2 i before here)

theorem Stacked.reverse {layers : List α} {depth : Nat} (stacked : Stacked layers depth fits) :
    Stacked layers.reverse depth fun i => fits (depth - 1 - i) := by
  obtain ⟨rfl, each⟩ := stacked
  refine ⟨List.length_reverse, fun i layer found => ?_⟩
  obtain ⟨inside, -⟩ := List.getElem?_eq_some_iff.mp found
  rw [List.length_reverse] at inside
  rw [List.getElem?_reverse inside] at found
  exact each _ layer found

end

structure Level (K : Type) where
  enc : EncLayer K
  tenc : EncLayer K
  dec : DecLayer K
  tdec : DecLayer K

structure Level.Fits {K : Type} (config : Config K) (i : Nat) (level : Level K) : Prop where
  enc : level.enc.Fits .frequency (config.chinZ i) (config.chout i) config.kernel config.stride
    config.contextEnc
  tenc : level.tenc.Fits .time (config.chinT i) (config.chout i) config.kernel config.stride
    config.contextEnc
  dec : level.dec.Fits .frequency (config.chout i) (config.decOutZ i) config.kernel config.stride
    config.context
  tdec : level.tdec.Fits .time (config.chout i) (config.decOutT i) config.kernel config.stride
    config.context

section

variable {K : Type} [Field K]

def FreqEmbedding.load (s : Scope K) (bins channels : Nat) (scale : K) : Except LoadError
    { emb : FreqEmbedding K // emb.bins = bins ∧ emb.channels = channels } := do
  let weight ← s.getHeld "embedding.weight" [bins, channels]
  return ⟨⟨bins, channels, weight.1, weight.2.1, scale⟩, rfl, rfl⟩

variable (settings : Settings K)

def Level.load (s : Scope K) (biased : s.weights.Biased) (index : Nat) :
    Except LoadError { level : Level K // level.Fits settings.toConfig index } := do
  let dconv := (settings.dconvDepth, settings.dconvCompress)
  let name := toString index
  let enc ← EncLayer.load ((s.child "encoder").child name) biased (settings.chinZ index)
    (settings.chout index) settings.kernel settings.stride .frequency settings.contextEnc dconv
  let tenc ← EncLayer.load ((s.child "tencoder").child name) biased (settings.chinT index)
    (settings.chout index) settings.kernel settings.stride .time settings.contextEnc dconv
  -- Decoders are stored outermost-first, so that this is the last to run.
  let last := index == 0
  let position := toString (settings.depth - 1 - index)
  let dec ← DecLayer.load ((s.child "decoder").child position) biased (settings.chout index)
    (settings.decOutZ index) settings.kernel settings.stride .frequency last settings.context dconv
  let tdec ← DecLayer.load ((s.child "tdecoder").child position) biased (settings.chout index)
    (settings.decOutT index) settings.kernel settings.stride .time last settings.context dconv
  return ⟨⟨enc.1, tenc.1, dec.1, tdec.1⟩, enc.2, tenc.2, dec.2, tdec.2⟩

def Level.loadAll (s : Scope K) (biased : s.weights.Biased) : (count : Nat) → Except LoadError
    { levels : List (Level K) // Stacked levels count (Level.Fits settings.toConfig) }
  | 0 => .ok ⟨[], .none⟩
  | count + 1 => do
      let levels ← Level.loadAll s biased count
      let level ← Level.load settings s biased count
      return ⟨levels.1 ++ [level.1], levels.2.snoc level.2⟩

def Demucs.load (cosine : Nat → Nat → K) (w : Artefact K) (path : String) :
    Except LoadError { demucs : Demucs settings // demucs.model.freqEmb.bins = 512 } := do
  let s := w.scope path
  let levels ← Level.loadAll settings s w.biased settings.depth
  let freqEmb ← FreqEmbedding.load (s.child "freq_emb") 512 settings.channels
    settings.freqEmbWeightScale
  let upsampler ← Conv1d.load (s.child "channel_upsampler.conv") w.biased settings.bottom
    settings.bottomChannels 1 1 0 1
  let upsamplerT ← Conv1d.load (s.child "channel_upsampler_t.conv") w.biased settings.bottom
    settings.bottomChannels 1 1 0 1
  let downsampler ← Conv1d.load (s.child "channel_downsampler.conv") w.biased
    settings.bottomChannels settings.bottom 1 1 0 1
  let downsamplerT ← Conv1d.load (s.child "channel_downsampler_t.conv") w.biased
    settings.bottomChannels settings.bottom 1 1 0 1
  let transformer ← Transformer.CrossTransformer.load (s.child "crosstransformer")
    settings.bottomChannels settings.transformerHeads settings.transformerFf
    settings.transformerLayers
  return ⟨{
    spectral := .new cosine
    model := {
      encoder := levels.1.map Level.enc
      tencoder := levels.1.map Level.tenc
      decoder := levels.1.reverse.map Level.dec
      tdecoder := levels.1.reverse.map Level.tdec
      freqEmb := freqEmb.1
      encoderFits := levels.2.map Level.enc fun _ _ => Level.Fits.enc
      tencoderFits := levels.2.map Level.tenc fun _ _ => Level.Fits.tenc
      decoderFits := levels.2.reverse.map Level.dec fun _ _ => Level.Fits.dec
      tdecoderFits := levels.2.reverse.map Level.tdec fun _ _ => Level.Fits.tdec
      freqEmbFits := freqEmb.2.2 }
    upsampler := upsampler.1
    upsamplerT := upsamplerT.1
    downsampler := downsampler.1
    downsamplerT := downsamplerT.1
    transformer := transformer.1
    traced := ⟨cosine, rfl⟩
    upsamplerFits := upsampler.2
    upsamplerTFits := upsamplerT.2
    downsamplerFits := downsampler.2
    downsamplerTFits := downsamplerT.2
    transformerFits := transformer.2 }, freqEmb.2.1⟩

end

end HtDemucs

/-! What an artefact stores of each part. -/

section

variable {K : Type}

def DConvBlock.Stored (s : Scope K) (channels hidden d : Nat) : Prop :=
  let b := ((s.child "layers").child (toString d)).child "layers"
  ((b.child "0").child "conv").Has "weight" [hidden, 3, channels] ∧
    ((b.child "1").Has "weight" [hidden] ∧ (b.child "1").Has "bias" [hidden]) ∧
    ((b.child "3").child "conv").Has "weight" [2 * channels, 1, hidden] ∧
    ((b.child "4").Has "weight" [2 * channels] ∧ (b.child "4").Has "bias" [2 * channels]) ∧
    (b.child "6").Has "scale" [channels]

def DConv.Stored (s : Scope K) (channels depth compress : Nat) : Prop :=
  ∀ d ∈ List.range depth, DConvBlock.Stored s channels (channels / compress) d

def Domain.along (domain : Domain) (chin chout kernel : Nat) : List Nat :=
  match domain with
  | .frequency => [chout, kernel, 1, chin]
  | .time => [chout, kernel, chin]

def Domain.square (domain : Domain) (chin chout kernel : Nat) : List Nat :=
  match domain with
  | .frequency => [chout, kernel, kernel, chin]
  | .time => [chout, kernel, chin]

def EncLayer.Stored (s : Scope K) (chin chout kernel : Nat) (domain : Domain) (context : Nat)
    (dilated : Dilated) : Prop :=
  (s.child "conv.conv").Has "weight" (domain.along chin chout kernel) ∧
    (s.child "rewrite.conv").Has "weight" (domain.square chout (2 * chout) (1 + 2 * context)) ∧
    DConv.Stored (s.child "dconv") chout dilated.1 dilated.2

def DecLayer.Stored (s : Scope K) (chin chout kernel : Nat) (domain : Domain) (context : Nat)
    (dilated : Dilated) : Prop :=
  (s.child "conv_tr.conv").Has "weight" (domain.along chin chout kernel) ∧
    (s.child "rewrite.conv").Has "weight" (domain.square chin (2 * chin) (1 + 2 * context)) ∧
    DConv.Stored (s.child "dconv") chin dilated.1 dilated.2

theorem Scope.conv_loads {α : Type} (s : Scope K) (shape : List Nat)
    (f : { t : Tensor K // t.shape = shape ∧ s.Has "weight" shape } → α) :
    Loads s.weights (s.Has "weight" shape) (s.getHeld "weight" shape >>= fun t => .ok (f t)) :=
  (s.getHeld_loads "weight" shape).done f

theorem Scope.affine_loads {α : Type} (s : Scope K) (dim : Nat)
    (f : { t : Tensor K // t.shape = [dim] ∧ s.Has "weight" [dim] } →
      { t : Tensor K // t.shape = [dim] ∧ s.Has "bias" [dim] } → α) :
    Loads s.weights (s.Has "weight" [dim] ∧ s.Has "bias" [dim])
      (s.getHeld "weight" [dim] >>= fun w => s.getHeld "bias" [dim] >>= fun b => .ok (f w b)) :=
  (s.getHeld_loads "weight" [dim]).bind fun _ => (s.getHeld_loads "bias" [dim]).done _

theorem Conv1d.load_loads (s : Scope K) (biased : s.weights.Biased)
    (chin chout kernel stride padding dilation : Nat) :
    Loads s.weights (s.Has "weight" [chout, kernel, chin])
      (Conv1d.load s biased chin chout kernel stride padding dilation) :=
  s.conv_loads _ _

theorem GroupNorm.load_loads (s : Scope K) (groups channels : Nat) :
    Loads s.weights (s.Has "weight" [channels] ∧ s.Has "bias" [channels])
      (GroupNorm.load s groups channels) :=
  s.affine_loads channels _

theorem LayerScale.load_loads (s : Scope K) (channels : Nat) :
    Loads s.weights (s.Has "scale" [channels]) (LayerScale.load s channels) :=
  (s.getHeld_loads "scale" [channels]).done _

theorem DConvBlock.load_loads (s : Scope K) (biased : s.weights.Biased) (channels hidden d : Nat) :
    Loads s.weights (DConvBlock.Stored s channels hidden d)
      (DConvBlock.load s biased channels hidden d) := by
  let b := ((s.child "layers").child (toString d)).child "layers"
  exact (Conv1d.load_loads ((b.child "0").child "conv") biased _ _ _ _ _ _).bind fun _ =>
    (GroupNorm.load_loads (b.child "1") 1 hidden).bind fun _ =>
      (Conv1d.load_loads ((b.child "3").child "conv") biased _ _ _ _ _ _).bind fun _ =>
        (GroupNorm.load_loads (b.child "4") 1 (2 * channels)).bind fun _ =>
          (LayerScale.load_loads (b.child "6") channels).done _

theorem DConv.load_loads (s : Scope K) (biased : s.weights.Biased)
    (channels depth compress : Nat) :
    Loads s.weights (DConv.Stored s channels depth compress)
      (DConv.load s biased channels depth compress) :=
  (Loads.mapM (fun d => DConvBlock.load_loads s biased channels (channels / compress) d) _).done _

theorem Conv.loadStrided_loads (s : Scope K) (biased : s.weights.Biased) (domain : Domain)
    (chin chout kernel stride padding : Nat) :
    Loads s.weights (s.Has "weight" (domain.along chin chout kernel))
      (Conv.loadStrided s biased domain chin chout kernel stride padding) := by
  cases domain with
  | frequency => exact (s.conv_loads _ _).done _
  | time => exact (s.conv_loads _ _).done _

theorem Conv.loadSquare_loads (s : Scope K) (biased : s.weights.Biased) (domain : Domain)
    (chin chout context : Nat) :
    Loads s.weights (s.Has "weight" (domain.square chin chout (1 + 2 * context)))
      (Conv.loadSquare s biased domain chin chout context) := by
  cases domain with
  | frequency => exact (s.conv_loads _ _).done _
  | time => exact (s.conv_loads _ _).done _

theorem ConvTr.loadStrided_loads (s : Scope K) (biased : s.weights.Biased) (domain : Domain)
    (chin chout kernel stride : Nat) :
    Loads s.weights (s.Has "weight" (domain.along chin chout kernel))
      (ConvTr.loadStrided s biased domain chin chout kernel stride) := by
  cases domain with
  | frequency => exact (s.conv_loads _ _).done _
  | time => exact (s.conv_loads _ _).done _

theorem EncLayer.load_loads (s : Scope K) (biased : s.weights.Biased)
    (chin chout kernel stride : Nat) (domain : Domain) (context : Nat) (dilated : Dilated) :
    Loads s.weights (EncLayer.Stored s chin chout kernel domain context dilated)
      (EncLayer.load s biased chin chout kernel stride domain context dilated) :=
  (Conv.loadStrided_loads (s.child "conv.conv") biased domain _ _ _ _ _).bind fun _ =>
    (Conv.loadSquare_loads (s.child "rewrite.conv") biased domain _ _ _).bind fun _ =>
      (DConv.load_loads (s.child "dconv") biased _ _ _).done _

theorem DecLayer.load_loads (s : Scope K) (biased : s.weights.Biased)
    (chin chout kernel stride : Nat) (domain : Domain) (last : Bool) (context : Nat)
    (dilated : Dilated) :
    Loads s.weights (DecLayer.Stored s chin chout kernel domain context dilated)
      (DecLayer.load s biased chin chout kernel stride domain last context dilated) :=
  (ConvTr.loadStrided_loads (s.child "conv_tr.conv") biased domain _ _ _ _).bind fun _ =>
    (Conv.loadSquare_loads (s.child "rewrite.conv") biased domain _ _ _).bind fun _ =>
      (DConv.load_loads (s.child "dconv") biased _ _ _).done _

end

namespace Transformer

section

variable {K : Type} [Zero K]

def Linear.Stored (s : Scope K) (chin chout : Nat) : Prop :=
  s.Has "weight" [chout, chin] ∧ s.Has "bias" [chout]

def Norm.Stored (s : Scope K) (dim : Nat) : Prop := s.Has "weight" [dim] ∧ s.Has "bias" [dim]

def Attention.Stored (s : Scope K) (dim : Nat) : Prop :=
  Linear.Stored (s.child "query_proj") dim dim ∧ Linear.Stored (s.child "key_proj") dim dim ∧
    Linear.Stored (s.child "value_proj") dim dim ∧ Linear.Stored (s.child "out_proj") dim dim

def Layer.Stored (s : Scope K) (dim ff : Nat) (cross : Bool) : Prop :=
  Attention.Stored (s.child (if cross then "cross_attn" else "attn")) dim ∧
    Norm.Stored (s.child "norm1") dim ∧ Norm.Stored (s.child "norm2") dim ∧
    (cross = true → Norm.Stored (s.child "norm3") dim) ∧
    Linear.Stored (s.child "linear1") dim ff ∧ Linear.Stored (s.child "linear2") ff dim ∧
    (s.child "gamma_1").Has "scale" [dim] ∧ (s.child "gamma_2").Has "scale" [dim] ∧
    Norm.Stored (s.child "norm_out.gn") dim

def Both.Stored (s : Scope K) (dim ff idx : Nat) : Prop :=
  Layer.Stored ((s.child "layers").child (toString idx)) dim ff (idx % 2 == 1) ∧
    Layer.Stored ((s.child "layers_t").child (toString idx)) dim ff (idx % 2 == 1)

def CrossTransformer.Stored (s : Scope K) (dim ff depth : Nat) : Prop :=
  (∀ idx ∈ List.range depth, Both.Stored s dim ff idx) ∧ Norm.Stored (s.child "norm_in") dim ∧
    Norm.Stored (s.child "norm_in_t") dim

theorem Linear.load_loads (s : Scope K) (chin chout : Nat) :
    Loads s.weights (Linear.Stored s chin chout) (Linear.load s chin chout) :=
  (s.getHeld_loads "weight" [chout, chin]).bind fun _ =>
    (s.getHeld_loads "bias" [chout]).done _

omit [Zero K] in
theorem LayerNorm.load_loads (s : Scope K) (dim : Nat) :
    Loads s.weights (Norm.Stored s dim) (LayerNorm.load s dim) :=
  s.affine_loads dim _

omit [Zero K] in
theorem OutNorm.load_loads (s : Scope K) (dim : Nat) :
    Loads s.weights (Norm.Stored s dim) (OutNorm.load s dim) :=
  s.affine_loads dim _

omit [Zero K] in
theorem LayerScale.load_loads (s : Scope K) (dim : Nat) :
    Loads s.weights (s.Has "scale" [dim]) (LayerScale.load s dim) :=
  (s.getHeld_loads "scale" [dim]).done _

theorem Attention.load_loads (s : Scope K) (dim heads : Nat) :
    Loads s.weights (Attention.Stored s dim) (Attention.load s dim heads) :=
  (Linear.load_loads (s.child "query_proj") dim dim).bind fun _ =>
    (Linear.load_loads (s.child "key_proj") dim dim).bind fun _ =>
      (Linear.load_loads (s.child "value_proj") dim dim).bind fun _ =>
        (Linear.load_loads (s.child "out_proj") dim dim).done _

omit [Zero K] in
theorem LayerNorm.loadFor_loads (s : Scope K) (dim : Nat) (cross : Bool) :
    Loads s.weights (cross = true → Norm.Stored s dim) (LayerNorm.loadFor s dim cross) := by
  cases cross with
  | false => exact fun across => by cases across
  | true =>
      have across : (true = true → Norm.Stored s dim) ↔ Norm.Stored s dim :=
        ⟨fun stored => stored rfl, fun stored _ => stored⟩
      rw [across]
      exact (LayerNorm.load_loads s dim).done _

theorem Layer.load_loads (s : Scope K) (dim heads ff : Nat) (cross : Bool) :
    Loads s.weights (Layer.Stored s dim ff cross) (Layer.load s dim heads ff cross) :=
  (Attention.load_loads (s.child (if cross then "cross_attn" else "attn")) dim heads).bind fun _ =>
    (LayerNorm.load_loads (s.child "norm1") dim).bind fun _ =>
      (LayerNorm.load_loads (s.child "norm2") dim).bind fun _ =>
        (LayerNorm.loadFor_loads (s.child "norm3") dim cross).bind fun _ =>
          (Linear.load_loads (s.child "linear1") dim ff).bind fun _ =>
            (Linear.load_loads (s.child "linear2") ff dim).bind fun _ =>
              (LayerScale.load_loads (s.child "gamma_1") dim).bind fun _ =>
                (LayerScale.load_loads (s.child "gamma_2") dim).bind fun _ =>
                  (OutNorm.load_loads (s.child "norm_out.gn") dim).done _

theorem CrossTransformer.load_loads (s : Scope K) (dim heads ff depth : Nat) :
    Loads s.weights (CrossTransformer.Stored s dim ff depth)
      (CrossTransformer.load s dim heads ff depth) := by
  have layers : Loads s.weights (∀ idx ∈ List.range depth, Both.Stored s dim ff idx)
      ((List.range depth).mapM (Both.load s dim heads ff)) := by
    refine Loads.mapM (fun idx => ?_) _
    exact (Layer.load_loads ((s.child "layers").child (toString idx)) dim heads ff _).bind fun _ =>
      (Layer.load_loads ((s.child "layers_t").child (toString idx)) dim heads ff _).done _
  exact layers.bind fun _ => (LayerNorm.load_loads (s.child "norm_in") dim).bind fun _ =>
    (LayerNorm.load_loads (s.child "norm_in_t") dim).done _

end

end Transformer

namespace HtDemucs

section

variable {K : Type} [Field K] (settings : Settings K)

def Level.Stored (s : Scope K) (index : Nat) : Prop :=
  let dconv := (settings.dconvDepth, settings.dconvCompress)
  let name := toString index
  let position := toString (settings.depth - 1 - index)
  EncLayer.Stored ((s.child "encoder").child name) (settings.chinZ index) (settings.chout index)
      settings.kernel .frequency settings.contextEnc dconv ∧
    EncLayer.Stored ((s.child "tencoder").child name) (settings.chinT index)
      (settings.chout index) settings.kernel .time settings.contextEnc dconv ∧
    DecLayer.Stored ((s.child "decoder").child position) (settings.chout index)
      (settings.decOutZ index) settings.kernel .frequency settings.context dconv ∧
    DecLayer.Stored ((s.child "tdecoder").child position) (settings.chout index)
      (settings.decOutT index) settings.kernel .time settings.context dconv

def Demucs.Stored (w : Weights K) (path : String) : Prop :=
  let s := w.scope path
  (∀ index < settings.depth, Level.Stored settings s index) ∧
    (s.child "freq_emb").Has "embedding.weight" [512, settings.channels] ∧
    (s.child "channel_upsampler.conv").Has "weight"
      [settings.bottomChannels, 1, settings.bottom] ∧
    (s.child "channel_upsampler_t.conv").Has "weight"
      [settings.bottomChannels, 1, settings.bottom] ∧
    (s.child "channel_downsampler.conv").Has "weight"
      [settings.bottom, 1, settings.bottomChannels] ∧
    (s.child "channel_downsampler_t.conv").Has "weight"
      [settings.bottom, 1, settings.bottomChannels] ∧
    Transformer.CrossTransformer.Stored (s.child "crosstransformer") settings.bottomChannels
      settings.transformerFf settings.transformerLayers

omit [Field K] in
theorem Level.load_loads (s : Scope K) (biased : s.weights.Biased) (index : Nat) :
    Loads s.weights (Level.Stored settings s index) (Level.load settings s biased index) :=
  (EncLayer.load_loads ((s.child "encoder").child _) biased _ _ _ _ .frequency _ _).bind fun _ =>
    (EncLayer.load_loads ((s.child "tencoder").child _) biased _ _ _ _ .time _ _).bind fun _ =>
      (DecLayer.load_loads ((s.child "decoder").child _) biased _ _ _ _ .frequency _ _ _).bind
        fun _ =>
          (DecLayer.load_loads ((s.child "tdecoder").child _) biased _ _ _ _ .time _ _ _).done _

omit [Field K] in
theorem Level.loadAll_loads (s : Scope K) (biased : s.weights.Biased) (count : Nat) :
    Loads s.weights (∀ index < count, Level.Stored settings s index)
      (Level.loadAll settings s biased count) := by
  induction count with
  | zero => exact fun index below => absurd below (Nat.not_lt_zero index)
  | succ count ih =>
      have both := ih.bind fun levels =>
        (Level.load_loads settings s biased count).done fun level =>
          (⟨levels.1 ++ [level.1], levels.2.snoc level.2⟩ :
            { levels : List (Level K) // Stacked levels (count + 1) (Level.Fits settings.toConfig) })
      rw [Nat.forall_lt_succ_right]
      exact both

/-- The model loads exactly where every weight it names is stored in its shape, and what a refusal
says is wrong with the artefact is. -/
theorem Demucs.load_loads (cosine : Nat → Nat → K) (w : Artefact K) (path : String) :
    Loads w.toWeights (Demucs.Stored settings w.toWeights path)
      (Demucs.load settings cosine w path) := by
  let s := w.scope path
  exact (Level.loadAll_loads settings s w.biased settings.depth).bind fun _ =>
    (Loads.done ((s.child "freq_emb").getHeld_loads "embedding.weight"
      [512, settings.channels]) _).bind fun _ =>
        (Conv1d.load_loads (s.child "channel_upsampler.conv") w.biased _ _ _ _ _ _).bind fun _ =>
          (Conv1d.load_loads (s.child "channel_upsampler_t.conv") w.biased _ _ _ _ _ _).bind
            fun _ => (Conv1d.load_loads (s.child "channel_downsampler.conv") w.biased
              _ _ _ _ _ _).bind fun _ =>
                (Conv1d.load_loads (s.child "channel_downsampler_t.conv") w.biased
                  _ _ _ _ _ _).bind fun _ =>
                    (Transformer.CrossTransformer.load_loads (s.child "crosstransformer")
                      _ _ _ _).done _

end

end HtDemucs

end Stemd.Mlx
