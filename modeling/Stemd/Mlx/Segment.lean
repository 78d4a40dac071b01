import Stemd.Mlx.BsRoformer
import Stemd.Mlx.CrossTransformer
import Stemd.Mlx.HtDemucs
import Stemd.Mlx.Spectral

/-! One segment through the whole of htdemucs: a spectrogram and a waveform, each standardised by
its own statistics, down their encoders, across the transformer, up their decoders, and added.

A shorter segment is padded up to the length the model was trained on and cut again at the end. -/

set_option autoImplicit false

namespace Stemd.Mlx.HtDemucs

open Stemd.Semantics
open Stemd.Mlx.Transformer (CrossTransformer Powers)

/-- What the artefact says about itself, beyond the convolutional stacks. -/
structure Settings (K : Type) extends Config K where
  bottomChannels : Nat
  transformerLayers : Nat
  transformerHeads : Nat
  transformerFf : Nat
  freqEmbWeightScale : K
  dconvDepth : Nat
  dconvCompress : Nat
  /-- Length in seconds the model was trained on. -/
  segment : ℚ
  sampleRate : Nat

def Settings.default {K : Type} [Field K] : Settings K where
  depth := 4
  channels := 48
  audioChannels := 2
  sources := 4
  kernel := 8
  stride := 4
  context := 1
  contextEnc := 0
  freqEmbScale := 0.2
  bottomChannels := 512
  transformerLayers := 5
  transformerHeads := 8
  transformerFf := 2048
  freqEmbWeightScale := 10
  dconvDepth := 2
  dconvCompress := 8
  segment := 7.8
  sampleRate := 44100

/-- Samples in one training segment, which is the length the model runs on. -/
def Settings.trainingLength {K : Type} (settings : Settings K) : Nat :=
  ⌊settings.segment * settings.sampleRate⌋₊

def Settings.bottom {K : Type} (settings : Settings K) : Nat :=
  settings.channels * 2 ^ (settings.depth - 1)

/-- What the model relies on its settings for. -/
structure Settings.Trained {K : Type} (settings : Settings K) (bins : Nat) : Prop where
  deep : 0 < settings.depth
  eight : settings.kernel = 8
  four : settings.stride = 4
  /-- The bins are halved twice at every level, and the first level's have an embedding. -/
  bins : ∃ m, 0 < m ∧ m * 4 ^ settings.depth = 2048 ∧ m * 4 ^ (settings.depth - 1) ≤ bins
  heads : 0 < settings.transformerHeads ∧ settings.transformerHeads ∣ settings.bottomChannels
  waves : 4 ∣ settings.bottomChannels
  sources : 0 < settings.sources
  /-- The segment is longer than what is reflected at either end of it. -/
  long : 1536 + (frameCount settings.trainingLength * 1024 - settings.trainingLength) <
    settings.trainingLength

theorem Settings.default_trained {K : Type} [Field K] :
    (Settings.default : Settings K).Trained 512 where
  deep := show 0 < 4 by decide
  eight := rfl
  four := rfl
  bins := ⟨8, show 0 < 8 ∧ 8 * 4 ^ 4 = 2048 ∧ 8 * 4 ^ (4 - 1) ≤ 512 by decide⟩
  heads := show 0 < 8 ∧ 8 ∣ 512 by decide
  waves := show 4 ∣ 512 by decide
  sources := show 0 < 4 by decide
  long := by
    have whole : (Settings.default : Settings K).trainingLength = 343980 := by
      norm_num [Settings.trainingLength, Settings.default]
    rw [whole]
    decide

structure Demucs {K : Type} [Field K] (settings : Settings K) where
  spectral : Spectral K
  model : Model settings.toConfig
  upsampler : Conv1d K
  upsamplerT : Conv1d K
  downsampler : Conv1d K
  downsamplerT : Conv1d K
  transformer : CrossTransformer K
  traced : ∃ cosine, spectral = .new cosine
  upsamplerFits : upsampler.dims = (settings.bottom, settings.bottomChannels, 1, 1, 0, 1)
  upsamplerTFits : upsamplerT.dims = (settings.bottom, settings.bottomChannels, 1, 1, 0, 1)
  downsamplerFits : downsampler.dims = (settings.bottomChannels, settings.bottom, 1, 1, 0, 1)
  downsamplerTFits : downsamplerT.dims = (settings.bottomChannels, settings.bottom, 1, 1, 0, 1)
  transformerFits : transformer.dim = settings.bottomChannels ∧
    transformer.heads = settings.transformerHeads

structure Runtime (K : Type) where
  fourier : Fourier K
  act : Activations K
  attending : Roformer.Attending K
  powers : Powers K

inductive SegmentError where
  /-- `{length} samples is longer than the {training}-sample segment this model runs on` -/
  | tooLong (length training : Nat)
  /-- `cannot centre-trim {have} samples to {length}` -/
  | trim (held length : Nat)
  | decode (error : DecodeError)
  | array (error : SpectralError)
  deriving DecidableEq, Repr

section

variable {K : Type} [Field K]

def standardise (attending : Roformer.Attending K) (x : Tensor K) (axes : List Nat) :
    Except SpectralError (Tensor K × Tensor K × Tensor K) := do
  let mean := x.meanAxes axes
  let centred ← fitting (x.zipWith (· - ·) mean)
  let squares ← fitting (centred.zipWith (· * ·) centred)
  let std := (squares.meanAxes axes).map attending.sqrt
  let scaled ← fitting (centred.zipWith (· / ·) (std.map (· + 1e-5)))
  return (scaled, mean, std)

def destandardise (x mean std : Tensor K) : Except SpectralError (Tensor K) := do
  let widen := fun a : Tensor K => fitting (a.reshape (a.shape.insertIdx 1 1))
  let scaled ← fitting (x.zipWith (· * ·) (← widen std))
  fitting (scaled.zipWith (· + ·) (← widen mean))

/-- Trim an array to a length about its centre. -/
def centreTrim (x : Tensor K) (length : Nat) : Except SegmentError (Tensor K) := do
  let (_, held) ← (lastAxis x).mapError .array
  if held = length then return x
  else if held < length then throw (.trim held length)
  else
    let start := (held - length) / 2
    (fitting (x.slice 3 start (start + length))).mapError .array

variable {settings : Settings K}

def Demucs.bottleneck (runtime : Runtime K) (demucs : Demucs settings) (x xt : Tensor K) :
    Except SpectralError (Tensor K × Tensor K) := do
  let [b, c, f, t] := x.shape | throw .array
  let flat ← fitting (x.reshape [b, c, f * t])
  let up ← demucs.upsampler.forward flat
  let up ← fitting (up.reshape [b, settings.bottomChannels, f, t])
  let upT ← demucs.upsamplerT.forward xt
  let (x, xt) ← demucs.transformer.forward runtime.act runtime.attending runtime.powers up upT
  let flat ← fitting (x.reshape [b, settings.bottomChannels, f * t])
  let down ← demucs.downsampler.forward flat
  let down ← fitting (down.reshape [b, c, f, t])
  let downT ← demucs.downsamplerT.forward xt
  return (down, downT)

def Demucs.spectrumToAudio [LinearOrder K] (runtime : Runtime K) (demucs : Demucs settings)
    (b fq t : Nat) (x mean std : Tensor K) : Except SpectralError (Tensor K) := do
  let x ← fitting (x.reshapeInfer [b, settings.sources] [fq, t])
  let x ← destandardise x mean std
  let z ← channelsAsComplex x
  demucs.spectral.inverse runtime.fourier z settings.trainingLength

def Demucs.separate [LinearOrder K] (runtime : Runtime K) (demucs : Demucs settings)
    (padded : Tensor K) : Except SegmentError (Tensor K) := do
  let z ← (demucs.spectral.forward runtime.fourier padded).mapError .array
  let mag ← (complexAsChannels z).mapError .array
  let (x, mean, std) ← (standardise runtime.attending mag [1, 2, 3]).mapError .array
  let (xt, meanT, stdT) ← (standardise runtime.attending padded [1, 2]).mapError .array
  let e ← (demucs.model.encode runtime.act x xt).mapError .array
  let (x, xt) ← (demucs.bottleneck runtime e.x e.xt).mapError .array
  let (x, xt) ← (demucs.model.decode runtime.act { e with x := x, xt := xt }).mapError .decode
  let [b, _, fq, t] := mag.shape | throw (.array .array)
  let x ← (demucs.spectrumToAudio runtime b fq t x mean std).mapError .array
  let (_, actual) ← (lastAxis xt).mapError .array
  let xt ← (fitting (xt.reshapeInfer [b, settings.sources] [actual])).mapError .array
  let xt ← (destandardise xt meanT stdT).mapError .array
  let trimmed ← centreTrim x actual
  (fitting (xt.zipWith (· + ·) trimmed)).mapError .array

/-- Separate one segment. `mix` is `[B, C, T]`; the result is `[B, sources, C, T]`. -/
def Demucs.forward [LinearOrder K] (runtime : Runtime K) (demucs : Demucs settings)
    (mix : Tensor K) : Except SegmentError (Tensor K) := do
  let (_, length) ← (lastAxis mix).mapError .array
  let training := settings.trainingLength
  if length > training then throw (.tooLong length training)
  -- Padded up: a shorter input is a different model, not a faster one.
  let padded ← (fitting (mix.pad [(0, 0), (0, 0), (0, (training : Int) - length)])).mapError .array
  let out ← demucs.separate runtime padded
  (fitting (out.slice 3 0 length)).mapError .array

theorem standardise_yields (attending : Roformer.Attending K) {x : Tensor K}
    (axes means : List Nat)
    (kept : (x.shape.mapIdx fun axis dim => if axis ∈ axes then 1 else dim) = means)
    (fits : Tensor.broadcast x.shape means = some x.shape) :
    ∃ scaled mean std, standardise attending x axes = .ok (scaled, mean, std) ∧
      scaled.shape = x.shape ∧ mean.shape = means ∧ std.shape = means := by
  have meanShape : (x.meanAxes axes).shape = means := (x.meanAxes_shape axes).trans kept
  obtain ⟨centred, centring, centredShape⟩ : Yields _ x.shape :=
    yields_zipWith (· - ·) (x := x) (y := x.meanAxes axes) (by rw [meanShape, fits])
  obtain ⟨squares, squaring, squaresShape⟩ : Yields _ x.shape :=
    yields_same (· * ·) centredShape centredShape
  have stdShape : ((squares.meanAxes axes).map attending.sqrt).shape = means := by
    rw [Tensor.map_shape, Tensor.meanAxes_shape, squaresShape, kept]
  obtain ⟨scaled, scaling, scaledShape⟩ : Yields _ x.shape :=
    yields_zipWith (· / ·) (x := centred)
      (y := ((squares.meanAxes axes).map attending.sqrt).map (· + 1e-5))
      (by rw [centredShape, Tensor.map_shape, stdShape, fits])
  refine ⟨scaled, _, _, ?_, scaledShape, meanShape, stdShape⟩
  simp only [standardise, centring, squaring, scaling, bind, Except.bind]
  rfl

theorem destandardise_yields {x mean std : Tensor K} {b : Nat} {means : List Nat}
    (meanShape : mean.shape = b :: means) (stdShape : std.shape = b :: means)
    (fits : Tensor.broadcast x.shape (b :: 1 :: means) = some x.shape) :
    Yields (destandardise x mean std) x.shape := by
  have widened : ∀ a : Tensor K, a.shape = b :: means →
      Yields (fitting (a.reshape (a.shape.insertIdx 1 1))) (b :: 1 :: means) := by
    intro a shape
    rw [shape]
    exact yields_reshape _ (by rw [shape]; simp)
  unfold destandardise
  apply (widened std stdShape).bind
  intro std stdShape
  apply (yields_zipWith (· * ·) (x := x) (y := std) (by rw [stdShape, fits])).bind
  intro scaled scaledShape
  apply (widened mean meanShape).bind
  intro mean meanShape
  exact yields_zipWith (· + ·) (by rw [scaledShape, meanShape, fits])

theorem pointwise_yields {conv : Conv1d K} {chin chout : Nat}
    (dims : conv.dims = (chin, chout, 1, 1, 0, 1)) {x : Tensor K} {b n : Nat}
    (shape : x.shape = [b, chin, n]) (nonempty : 0 < n) :
    Yields (conv.forward x) [b, chout, n] := by
  simp only [Conv1d.dims, Prod.mk.injEq] at dims
  obtain ⟨chinIs, choutIs, kernel, stride, padding, dilation⟩ := dims
  have narrow : windows n 1 1 0 1 = some n := windows_same n 0 1 nonempty
  rw [← choutIs]
  exact conv.yields n (chinIs ▸ shape) (by rw [kernel, stride, padding, dilation, narrow])

theorem Demucs.bottleneck_yields (runtime : Runtime K) (demucs : Demucs settings) {bins : Nat}
    (trained : settings.Trained bins) {x xt : Tensor K} {B f t n : Nat}
    (shape : x.shape = [B, settings.bottom, f, t]) (shapeT : xt.shape = [B, settings.bottom, n])
    (cells : 0 < f * t) (instants : 0 < n) :
    ∃ y yt, demucs.bottleneck runtime x xt = .ok (y, yt) ∧
      y.shape = [B, settings.bottom, f, t] ∧ yt.shape = [B, settings.bottom, n] := by
  obtain ⟨flat, flattening, flatShape⟩ := yields_reshape (x := x) [B, settings.bottom, f * t]
    (by rw [shape]; simp)
  obtain ⟨up, raising, upShape⟩ := pointwise_yields demucs.upsamplerFits flatShape cells
  obtain ⟨wide, unfolding, wideShape⟩ :=
    yields_reshape (x := up) [B, settings.bottomChannels, f, t]
      (by rw [upShape]; simp)
  obtain ⟨upT, raisingT, upTShape⟩ := pointwise_yields demucs.upsamplerTFits shapeT instants
  obtain ⟨dimIs, headsIs⟩ := demucs.transformerFits
  obtain ⟨x', xt', crossing, xShape', xtShape', -⟩ := demucs.transformer.forward_spec runtime.act
    runtime.attending runtime.powers (by rw [headsIs]; exact trained.heads.1)
    (by rw [dimIs, headsIs]; exact trained.heads.2) (by rw [dimIs]; exact trained.waves)
    (show wide.shape = [B, demucs.transformer.dim, f, t] by rw [wideShape, dimIs])
    (show upT.shape = [B, demucs.transformer.dim, n] by rw [upTShape, dimIs])
  rw [dimIs] at xShape' xtShape'
  obtain ⟨flat', flattening', flatShape'⟩ :=
    yields_reshape (x := x') [B, settings.bottomChannels, f * t]
      (by rw [xShape']; simp)
  obtain ⟨down, lowering, downShape⟩ := pointwise_yields demucs.downsamplerFits flatShape' cells
  obtain ⟨y, unfolding', yShape⟩ := yields_reshape (x := down) [B, settings.bottom, f, t]
    (by rw [downShape]; simp)
  obtain ⟨yt, loweringT, ytShape⟩ := pointwise_yields demucs.downsamplerTFits xtShape' instants
  refine ⟨y, yt, ?_, yShape, ytShape⟩
  simp only [Demucs.bottleneck, shape, flattening, raising, unfolding, raisingT, crossing,
    flattening', lowering, unfolding', loweringT, bind, Except.bind]
  rfl

theorem Model.decode_shapes {config : Config K} (act : Activations K) (model : Model config)
    (eight : config.kernel = 8) (four : config.stride = 4) (deep : 0 < config.depth)
    {B T m N : Nat} (samples : 1 ≤ T) (bins : 1 ≤ m) (frames : 1 ≤ N) {e : Branches K}
    (down : Descended config B T m N config.depth e) {x xt : Tensor K}
    (xShape : x.shape = e.x.shape) (xtShape : xt.shape = e.xt.shape) :
    ∃ y yt, model.decode act { e with x := x, xt := xt } = .ok (y, yt) ∧
      y.shape = [B, config.decOutZ 0, m * 4 ^ config.depth, N] ∧
      yt.shape = [B, config.decOutT 0, T] := by
  -- By induction on the layers that have run, with the channels of the last as well.
  obtain ⟨bottom, start, before⟩ :=
    model.decodeUpTo_spec act eight four samples bins frames down xShape xtShape 0 (Nat.zero_le _)
  have same : bottom = { e with x := x, xt := xt } := by
    have first : model.decodeUpTo act 0 { e with x := x, xt := xt } =
        .ok { e with x := x, xt := xt } := rfl
    rw [start] at first
    exact Except.ok.inj first
  rw [same] at before
  have run := foldlM_zipIdx (model.decodeStep act) model.decoder
    (fun j s => Ascended config B T m N j e s ∧ (0 < j →
      s.x.shape = [B, config.decOutZ (config.depth - j), m * 4 ^ j, N] ∧
      s.xt.shape = [B, config.decOutT (config.depth - j), level T (config.depth - j)]))
    ⟨before, fun none => absurd none (Nat.lt_irrefl 0)⟩
    (fun j layer s at_j kept => by
      obtain ⟨s', decoded, after, shapes⟩ :=
        model.decodeStep_shapes act eight four samples bins frames down at_j kept.1
      have next : config.depth - 1 - j = config.depth - (j + 1) := by omega
      rw [next] at shapes
      exact ⟨s', decoded, after, fun _ => shapes⟩)
    config.depth (by rw [model.decoderFits.1])
  obtain ⟨s, decoded, up, shapes⟩ := run
  obtain ⟨sShape, stShape⟩ := shapes deep
  rw [Nat.sub_self] at sShape stShape
  have emptied : ∀ {stack : List (Tensor K)} {f : Nat → List Nat},
      stack.map Tensor.shape = (List.range config.depth).reverse.map f →
      stack.drop config.depth = [] := by
    intro stack f pushed
    have both := congrArg List.length pushed
    apply List.drop_eq_nil_of_le
    simpa using Nat.le_of_eq both
  have saved : s.saved = [] := up.saved.trans (emptied down.saved)
  have savedT : s.savedT = [] := up.savedT.trans (emptied down.savedT)
  refine ⟨s.x, s.xt, ?_, sShape, stShape⟩
  have ran : model.decodeUpTo act config.depth { e with x := x, xt := xt } = .ok s := decoded
  simp only [Model.decode, model.decoderFits.1, ran, saved, savedT, bind, Except.bind]
  rfl

theorem encoder_refuses (act : Activations K) {layer : EncLayer K} {chin chout context : Nat}
    (fits : layer.Fits .time chin chout 8 4 context) {x : Tensor K} {b c n : Nat}
    (shape : x.shape = [b, c, n]) (differs : c ≠ chin) :
    layer.forward act x none = .error .array := by
  obtain ⟨y, padded, yShape⟩ := EncLayer.strided_yields fits.hop shape
  have prepared : layer.prepared x = .ok y := by
    simp only [EncLayer.prepared, fits.inDomain, EncLayer.flattened, shape]
    exact padded
  have strided := fits.conv
  cases held : layer.conv with
  | freq conv =>
      rw [held] at strided
      cases strided
  | time conv =>
      rw [held] at strided
      simp only [Conv.Strided, Conv1d.dims, Prod.mk.injEq] at strided
      obtain ⟨chinIs, -⟩ := strided
      obtain ⟨turned, swapped, turnedShape⟩ := yields_swapLast yShape
      have refused : turned.conv1d conv.weight conv.stride conv.padding conv.dilation = none := by
        simp only [Tensor.conv1d, turnedShape, conv.weightShape]
        rw [if_neg (by rw [chinIs]; exact fun same => differs same.symm)]
      have convolved : conv.forward y = .error .array := by
        simp only [Conv1d.forward, swapped, refused, bind, Except.bind]
        rfl
      simp only [EncLayer.forward, prepared, held, Conv.forward, convolved, bind, Except.bind]

theorem Model.encode_refuses {config : Config K} (act : Activations K) (model : Model config)
    (eight : config.kernel = 8) (four : config.stride = 4) (deep : 0 < config.depth)
    {x xt : Tensor K} {B C T : Nat} {lead : List Nat} {n : Nat} (shape : x.shape = lead ++ [n])
    (shapeT : xt.shape = [B, C, T]) (differs : C ≠ config.audioChannels) :
    model.encode act x xt = .error .array := by
  obtain ⟨layer, rest, encoder⟩ : ∃ layer rest, model.encoder = layer :: rest := by
    apply List.exists_cons_of_length_pos
    rwa [model.encoderFits.1]
  obtain ⟨tenc, at_t⟩ : ∃ tenc, model.tencoder[0]? = some tenc :=
    ⟨_, List.getElem?_eq_getElem (by rw [model.tencoderFits.1]; exact deep)⟩
  have fits := model.tencoderFits.2 0 tenc at_t
  rw [eight, four] at fits
  have refused := encoder_refuses act fits shapeT (by rw [Config.chinT, if_pos rfl]; exact differs)
  have axis : lastAxis x = .ok (lead.length, n) := lastAxis_eq shape
  have axisT : lastAxis xt = .ok (2, T) :=
    lastAxis_eq (show xt.shape = [B, C] ++ [T] from shapeT)
  have first : model.encodeStep act ⟨x, xt, [], [], [], []⟩ (layer, 0) = .error .array := by
    simp only [Model.encodeStep, encodeTime, at_t, axis, axisT, refused, bind, Except.bind]
  rw [Model.encode, encoder, List.zipIdx_cons, List.foldlM_cons, first]
  rfl

theorem statistics_fit (b c f t : Nat) :
    Tensor.broadcast [b, c, f, t] [b, 1, 1, 1] = some [b, c, f, t] ∧
      Tensor.broadcast [b, c, t] [b, 1, 1] = some [b, c, t] ∧ ∀ s,
        Tensor.broadcast [b, s, c, f, t] [b, 1, 1, 1, 1] = some [b, s, c, f, t] ∧
        Tensor.broadcast [b, s, c, t] [b, 1, 1, 1] = some [b, s, c, t] := by
  simp [Tensor.broadcast, Tensor.stretch_same, Tensor.stretch_one_right, Tensor.stretch_nil]

variable [LinearOrder K]

theorem Demucs.spectrumToAudio_yields (runtime : Runtime K) (demucs : Demucs settings) {bins : Nat}
    (trained : settings.Trained bins) {x mean std : Tensor K} {B : Nat} (batch : 0 < B)
    (shape : x.shape = [B, settings.decOutZ 0, 2048, frameCount settings.trainingLength])
    (meanShape : mean.shape = [B, 1, 1, 1]) (stdShape : std.shape = [B, 1, 1, 1]) :
    Yields (demucs.spectrumToAudio runtime B 2048 (frameCount settings.trainingLength) x mean std)
      [B, settings.sources, settings.audioChannels, settings.trainingLength] := by
  obtain ⟨cosine, traced⟩ := demucs.traced
  have long := trained.long
  have frames : 0 < frameCount settings.trainingLength := by
    have := frameCount_spec settings.trainingLength
    omega
  have sources := trained.sources
  unfold Demucs.spectrumToAudio
  rw [Tensor.reshapeInfer_eq x (n := settings.audioChannels * 2)
    (by simp only [List.prod_cons, List.prod_nil]; positivity)
    (by
      rw [shape, decOut_sources, Config.chinZ, if_pos rfl]
      simp only [List.prod_cons, List.prod_nil]
      ring)]
  apply (yields_reshape _ (by
    rw [shape, decOut_sources, Config.chinZ, if_pos rfl]
    simp only [List.cons_append, List.nil_append, List.prod_cons, List.prod_nil]
    ring)).bind
  intro parted partedShape
  have parts : parted.shape = [B, settings.sources, settings.audioChannels * 2, 2048,
      frameCount settings.trainingLength] := partedShape
  apply (destandardise_yields meanShape stdShape (by
    rw [parts]
    exact ((statistics_fit B _ 2048 _).2.2 _).1)).bind
  intro restored restoredShape
  rw [parts] at restoredShape
  obtain ⟨z, joined, zShape, -⟩ := channelsAsComplex_spec restoredShape
  obtain ⟨y, inverted, yShape, -⟩ := Spectral.inverse_spec runtime.fourier cosine
    (show z.shape = [B, settings.sources, settings.audioChannels] ++ _ from zShape)
  refine ⟨y, ?_, yShape⟩
  rw [joined, traced]
  exact inverted

/-- A segment of the training length comes out as one for every source. -/
theorem Demucs.separate_spec (runtime : Runtime K) (demucs : Demucs settings)
    (trained : settings.Trained demucs.model.freqEmb.bins) {padded : Tensor K} {B : Nat}
    (batch : 0 < B) (shape : padded.shape = [B, settings.audioChannels, settings.trainingLength]) :
    ∃ y, demucs.separate runtime padded = .ok y ∧
      y.shape = [B, settings.sources, settings.audioChannels, settings.trainingLength] := by
  obtain ⟨cosine, traced⟩ := demucs.traced
  obtain ⟨m, positive, whole, table⟩ := trained.bins
  have long := trained.long
  have sources := trained.sources
  have frames : 0 < frameCount settings.trainingLength := by
    have := frameCount_spec settings.trainingLength
    omega
  obtain ⟨z, forward, zShape, -⟩ :=
    Spectral.forward_spec runtime.fourier cosine shape (by omega) long
  rw [← traced] at forward
  obtain ⟨mag, laid, magShape, -⟩ := complexAsChannels_spec zShape
  obtain ⟨x, mean, std, standing, xShape, meanShape, stdShape⟩ :=
    standardise_yields runtime.attending (x := mag) [1, 2, 3] [B, 1, 1, 1]
      (by rw [magShape]; rfl) (by rw [magShape]; exact (statistics_fit B _ _ _).1)
  obtain ⟨xt, meanT, stdT, standingT, xtShape, meanTShape, stdTShape⟩ :=
    standardise_yields runtime.attending (x := padded) [1, 2] [B, 1, 1]
      (by rw [shape]; rfl) (by rw [shape]; exact (statistics_fit B _ 0 _).2.1)
  obtain ⟨e, encoded, down⟩ := demucs.model.encode_spec runtime.act trained.eight trained.four
    (T := settings.trainingLength) (m := m) (by omega) positive frames table
    (show x.shape = _ by rw [xShape, magShape, whole]) (xtShape.trans shape)
  have deepest : settings.depth = settings.depth - 1 + 1 := by have := trained.deep; omega
  have inner : settings.toConfig.chinZ settings.depth = settings.bottom ∧
      settings.toConfig.chinT settings.depth = settings.bottom := by
    rw [deepest]
    exact ⟨chinZ_succ _ _, chinT_succ _ _⟩
  have eShape := down.x
  have etShape := down.xt
  rw [inner.1, Nat.sub_self, Nat.pow_zero, Nat.mul_one] at eShape
  rw [inner.2] at etShape
  obtain ⟨x', xt', narrowed, xShape', xtShape'⟩ := demucs.bottleneck_yields runtime trained eShape
    etShape (Nat.mul_pos positive frames) (level_pos (by omega) _)
  obtain ⟨y, yt, decoded, yShape, ytShape⟩ := demucs.model.decode_shapes runtime.act trained.eight
    trained.four trained.deep (by omega) positive frames down (xShape'.trans eShape.symm)
    (xtShape'.trans etShape.symm)
  rw [whole] at yShape
  obtain ⟨audio, inverted, audioShape⟩ :=
    demucs.spectrumToAudio_yields runtime trained batch yShape meanShape stdShape
  have axis : lastAxis yt = .ok (2, settings.trainingLength) :=
    lastAxis_eq (show yt.shape = [B, _] ++ [settings.trainingLength] from ytShape)
  obtain ⟨parted, parting, partedShape⟩ : Yields
      (fitting (yt.reshapeInfer [B, settings.sources] [settings.trainingLength]))
      [B, settings.sources, settings.audioChannels, settings.trainingLength] := by
    have training : 0 < settings.trainingLength := by omega
    rw [Tensor.reshapeInfer_eq yt (n := settings.audioChannels)
      (by simp only [List.prod_cons, List.prod_nil]; positivity)
      (by
        rw [ytShape, Config.decOutT, if_pos rfl]
        simp only [List.prod_cons, List.prod_nil]
        ring)]
    exact yields_reshape _ (by
      rw [ytShape, Config.decOutT, if_pos rfl]
      simp only [List.cons_append, List.nil_append, List.prod_cons, List.prod_nil]
      ring)
  obtain ⟨restored, restoring, restoredShape⟩ := destandardise_yields (x := parted) meanTShape
    stdTShape (by rw [partedShape]; exact ((statistics_fit B _ 0 _).2.2 _).2)
  rw [partedShape] at restoredShape
  -- Both branches are of the training length, so that nothing is trimmed.
  have trimmed : centreTrim audio settings.trainingLength = .ok audio := by
    have held : lastAxis audio = .ok (3, settings.trainingLength) := lastAxis_eq
      (show audio.shape = [B, settings.sources, settings.audioChannels] ++
        [settings.trainingLength] from audioShape)
    simp only [centreTrim, held, Except.mapError, bind, Except.bind, if_true]
    rfl
  obtain ⟨out, added, outShape⟩ := yields_same (· + ·) restoredShape audioShape
  refine ⟨out, ?_, outShape⟩
  simp only [Demucs.separate, forward, laid, standing, standingT, encoded, narrowed, decoded,
    magShape, inverted, axis, parting, restoring, trimmed, added, Except.mapError, bind,
    Except.bind]

theorem Demucs.separate_refuses (runtime : Runtime K) (demucs : Demucs settings)
    (trained : settings.Trained demucs.model.freqEmb.bins) {padded : Tensor K} {B C : Nat}
    (shape : padded.shape = [B, C, settings.trainingLength])
    (differs : C ≠ settings.audioChannels) :
    demucs.separate runtime padded = .error (.array .array) := by
  obtain ⟨cosine, traced⟩ := demucs.traced
  obtain ⟨z, forward, zShape, -⟩ :=
    Spectral.forward_spec runtime.fourier cosine shape (by have := trained.long; omega) trained.long
  rw [← traced] at forward
  obtain ⟨mag, laid, magShape, -⟩ := complexAsChannels_spec zShape
  obtain ⟨x, mean, std, standing, xShape, -, -⟩ :=
    standardise_yields runtime.attending (x := mag) [1, 2, 3] [B, 1, 1, 1]
      (by rw [magShape]; rfl) (by rw [magShape]; exact (statistics_fit B _ _ _).1)
  obtain ⟨xt, meanT, stdT, standingT, xtShape, -, -⟩ :=
    standardise_yields runtime.attending (x := padded) [1, 2] [B, 1, 1]
      (by rw [shape]; rfl) (by rw [shape]; exact (statistics_fit B _ 0 _).2.1)
  have refused := demucs.model.encode_refuses runtime.act trained.eight trained.four trained.deep
    (show x.shape = [B, C * 2, 2048] ++ [_] from xShape.trans magShape) (xtShape.trans shape)
    differs
  simp only [Demucs.separate, forward, laid, standing, standingT, refused, Except.mapError, bind,
    Except.bind]

omit [LinearOrder K] in
theorem padded_segment {mix : Tensor K} {B C T training : Nat} (shape : mix.shape = [B, C, T])
    (fits : T ≤ training) :
    ∃ padded, mix.pad [(0, 0), (0, 0), (0, (training : Int) - T)] = some padded ∧
      padded.shape = [B, C, training] ∧ ∀ b c t, b < B → c < C → t < training →
        padded.get [b, c, t] = if t < T then mix.get [b, c, t] else 0 := by
  obtain ⟨padded, padding, paddedShape, entry⟩ := Tensor.padLast_spec [B, C] T shape
    (show (0 : Int) ≤ 0 by omega) (show (0 : Int) ≤ (training : Int) - T by omega)
  have whole : (0 : Int).toNat + T + ((training : Int) - T).toNat = training := by omega
  rw [whole] at paddedShape
  refine ⟨padded, padding, paddedShape, fun b c t item channel sample => ?_⟩
  refine (entry [b, c] t (.cons item (.cons channel .nil)) (by omega)).trans ?_
  exact if_congr (by omega) rfl rfl

theorem Demucs.forward_of_padded (runtime : Runtime K) (demucs : Demucs settings)
    (trained : settings.Trained demucs.model.freqEmb.bins) {mix padded : Tensor K} {B T : Nat}
    (batch : 0 < B) (shape : mix.shape = [B, settings.audioChannels, T])
    (fits : T ≤ settings.trainingLength)
    (padding : mix.pad [(0, 0), (0, 0), (0, (settings.trainingLength : Int) - T)] = some padded)
    (paddedShape : padded.shape = [B, settings.audioChannels, settings.trainingLength]) :
    ∃ out y, demucs.separate runtime padded = .ok out ∧ demucs.forward runtime mix = .ok y ∧
      y.shape = [B, settings.sources, settings.audioChannels, T] ∧
      ∀ b s c t, b < B → s < settings.sources → c < settings.audioChannels → t < T →
        y.get [b, s, c, t] = out.get [b, s, c, t] := by
  have axis : lastAxis mix = .ok (2, T) :=
    lastAxis_eq (show mix.shape = [B, settings.audioChannels] ++ [T] from shape)
  obtain ⟨out, separated, outShape⟩ := demucs.separate_spec runtime trained batch paddedShape
  obtain ⟨y, cut, yShape, entry⟩ := Tensor.slice_spec
    [B, settings.sources, settings.audioChannels] settings.trainingLength [] outShape
    (Int.le_refl 0) (show (0 : Int) ≤ T by omega) (by omega)
  have cut' : out.slice 3 0 T = some y := cut
  refine ⟨out, y, separated, ?_, yShape, fun b s c t item source channel sample => ?_⟩
  · simp only [Demucs.forward, axis, padding, separated, cut', fitting, Except.mapError, bind,
      Except.bind]
    rw [if_neg (by omega)]
  · have here := entry [b, s, c] t [] (.cons item (.cons source (.cons channel .nil)))
      (by omega) .nil
    rwa [Int.toNat_zero, Nat.zero_add] at here

/-- The model takes every segment of its own channels that is no longer than what it was trained
on, and refuses every other. -/
theorem Demucs.forward_spec (runtime : Runtime K) (demucs : Demucs settings)
    (trained : settings.Trained demucs.model.freqEmb.bins) {mix : Tensor K} {B C T : Nat}
    (batch : 0 < B) (shape : mix.shape = [B, C, T]) :
    (settings.trainingLength < T →
      demucs.forward runtime mix = .error (.tooLong T settings.trainingLength)) ∧
    (T ≤ settings.trainingLength → C ≠ settings.audioChannels →
      demucs.forward runtime mix = .error (.array .array)) ∧
    (T ≤ settings.trainingLength → C = settings.audioChannels →
      ∃ y, demucs.forward runtime mix = .ok y ∧ y.shape = [B, settings.sources, C, T]) := by
  have axis : lastAxis mix = .ok (2, T) := lastAxis_eq (show mix.shape = [B, C] ++ [T] from shape)
  refine ⟨fun longer => ?_, fun fits differs => ?_, fun fits own => ?_⟩
  · simp only [Demucs.forward, axis, Except.mapError, bind, Except.bind]
    rw [if_pos longer]
    rfl
  · obtain ⟨padded, padding, paddedShape, -⟩ := padded_segment shape fits
    have refused := demucs.separate_refuses runtime trained paddedShape differs
    simp only [Demucs.forward, axis, padding, refused, fitting, Except.mapError, bind, Except.bind]
    rw [if_neg (by omega)]
  · subst own
    obtain ⟨padded, padding, paddedShape, -⟩ := padded_segment shape fits
    obtain ⟨-, y, -, forward, yShape, -⟩ :=
      demucs.forward_of_padded runtime trained batch shape fits padding paddedShape
    exact ⟨y, forward, yShape⟩

end

section

variable {K : Type} [Zero K]

def evenConv1d (chin chout kernel stride padding : Nat) (value : K) : Conv1d K where
  chin := chin
  chout := chout
  kernel := kernel
  stride := stride
  padding := padding
  dilation := 1
  weight := .build [chout, kernel, chin] fun _ => value
  weightShape := rfl
  bias := none
  biasShape := Roformer.no_bias

def evenConv2d (chin chout : Nat) (kernel stride padding : Nat × Nat) (value : K) : Conv2d K where
  chin := chin
  chout := chout
  kernel := kernel
  stride := stride
  padding := padding
  weight := .build [chout, kernel.1, kernel.2, chin] fun _ => value
  weightShape := rfl
  bias := none
  biasShape := Roformer.no_bias

def evenEnc (chinZ chinT : Nat) (value : K) : Domain → EncLayer K
  | .frequency =>
      { conv := .freq (evenConv2d chinZ 1 (8, 1) (4, 1) (2, 0) value),
        rewrite := some (.freq (evenConv2d 1 2 (1, 1) (1, 1) (0, 0) value)),
        dconv := none, domain := .frequency, stride := 4, empty := false }
  | .time =>
      { conv := .time (evenConv1d chinT 1 8 4 2 value),
        rewrite := some (.time (evenConv1d 1 2 1 1 0 value)),
        dconv := none, domain := .time, stride := 4, empty := false }

def evenDec (outZ outT : Nat) (value : K) : Domain → DecLayer K
  | .frequency =>
      { convTr := .freq ⟨1, outZ, (8, 1), (4, 1), .build [outZ, 8, 1, 1] fun _ => value, rfl,
          none, Roformer.no_bias⟩,
        rewrite := some (.freq (evenConv2d 1 2 (3, 3) (1, 1) (1, 1) value)),
        dconv := none, domain := .frequency, chin := 1, pad := 2, last := true, empty := false }
  | .time =>
      { convTr := .time ⟨1, outT, 8, 4, .build [outT, 8, 1] fun _ => value, rfl, none,
          Roformer.no_bias⟩,
        rewrite := some (.time (evenConv1d 1 2 3 1 1 value)),
        dconv := none, domain := .time, chin := 1, pad := 2, last := true, empty := false }

end

noncomputable def oneLevel : Settings ℝ where
  depth := 1
  channels := 1
  audioChannels := 1
  sources := 1
  kernel := 8
  stride := 4
  context := 1
  contextEnc := 0
  freqEmbScale := 1
  bottomChannels := 4
  transformerLayers := 2
  transformerHeads := 2
  transformerFf := 4
  freqEmbWeightScale := 10.0
  dconvDepth := 2
  dconvCompress := 8
  segment := 4
  sampleRate := 1024

theorem oneLevel_training : oneLevel.trainingLength = 4096 := by
  norm_num [Settings.trainingLength, oneLevel]

theorem oneLevel_trained : oneLevel.Trained 512 where
  deep := Nat.one_pos
  eight := rfl
  four := rfl
  bins := ⟨512, show 0 < 512 ∧ 512 * 4 ^ 1 = 2048 ∧ 512 * 4 ^ (1 - 1) ≤ 512 by decide⟩
  heads := show 0 < 2 ∧ 2 ∣ 4 by decide
  waves := show 4 ∣ 4 by decide
  sources := Nat.one_pos
  long := by
    rw [oneLevel_training]
    decide

theorem stacked_one {α : Type} {fits : Nat → α → Prop} {a : α} (first : fits 0 a) :
    Stacked [a] 1 fits := by
  refine ⟨rfl, fun i layer at_i => ?_⟩
  match i with
  | 0 => cases at_i; exact first
  | i + 1 => simp at at_i

noncomputable def oneLevelModel : Demucs oneLevel where
  spectral := .new fun k n => Real.cos (2.0 * Real.pi * k / n)
  model := {
    encoder := [evenEnc 2 1 0.125 .frequency]
    tencoder := [evenEnc 2 1 0.125 .time]
    decoder := [evenDec 2 1 1 .frequency]
    tdecoder := [evenDec 2 1 1 .time]
    freqEmb := ⟨512, 1, .build [512, 1] fun _ => 1, rfl, 10.0⟩
    encoderFits := stacked_one
      ⟨rfl, rfl, rfl, rfl, ⟨_, rfl, rfl⟩, fun _ is => by cases is⟩
    tencoderFits := stacked_one
      ⟨rfl, rfl, rfl, rfl, ⟨_, rfl, rfl⟩, fun _ is => by cases is⟩
    decoderFits := stacked_one
      ⟨rfl, rfl, rfl, ⟨rfl, rfl, rfl, rfl⟩, ⟨_, rfl, rfl⟩, fun _ is => by cases is⟩
    tdecoderFits := stacked_one
      ⟨rfl, rfl, rfl, ⟨rfl, rfl, rfl, rfl⟩, ⟨_, rfl, rfl⟩, fun _ is => by cases is⟩
    freqEmbFits := rfl }
  upsampler := evenConv1d 1 4 1 1 0 1
  upsamplerT := evenConv1d 1 4 1 1 0 1
  downsampler := evenConv1d 4 1 1 1 0 0.25
  downsamplerT := evenConv1d 4 1 1 1 0 0.25
  transformer := Transformer.fourTransformer
  traced := ⟨_, rfl⟩
  upsamplerFits := rfl
  upsamplerTFits := rfl
  downsamplerFits := rfl
  downsamplerTFits := rfl
  transformerFits := ⟨rfl, rfl⟩

noncomputable def realRuntime : Runtime ℝ :=
  ⟨Roformer.realFourier, Roformer.realActivations, Roformer.realAttending, Transformer.realPowers⟩

example :
    oneLevelModel.forward realRuntime (.build [1, 1, 5000] fun _ => 1) =
        .error (.tooLong 5000 4096) ∧
      oneLevelModel.forward realRuntime ⟨[1, 2, 2], [1, 2, 3, 4], rfl⟩ = .error (.array .array) ∧
      ∃ y, oneLevelModel.forward realRuntime ⟨[1, 1, 3], [1, -2, 3], rfl⟩ = .ok y ∧
        y.shape = [1, 1, 1, 3] := by
  have table : oneLevel.Trained oneLevelModel.model.freqEmb.bins := oneLevel_trained
  obtain ⟨longer, -, -⟩ := oneLevelModel.forward_spec realRuntime table
    Nat.one_pos (show (Tensor.build [1, 1, 5000] fun _ => (1 : ℝ)).shape = [1, 1, 5000] from rfl)
  obtain ⟨-, other, -⟩ := oneLevelModel.forward_spec realRuntime table
    Nat.one_pos (show (⟨[1, 2, 2], [1, 2, 3, 4], rfl⟩ : Tensor ℝ).shape = [1, 2, 2] from rfl)
  obtain ⟨-, -, runs⟩ := oneLevelModel.forward_spec realRuntime table
    Nat.one_pos (show (⟨[1, 1, 3], [1, -2, 3], rfl⟩ : Tensor ℝ).shape = [1, 1, 3] from rfl)
  rw [oneLevel_training] at longer other runs
  exact ⟨longer (by decide), other (by decide) (show 2 ≠ 1 by decide), runs (by decide) rfl⟩

section

variable {K : Type} [Field K] {settings : Settings K} [LinearOrder K]

/-- Silence after a segment changes nothing of what comes out before it. -/
theorem Demucs.forward_silence (runtime : Runtime K) (demucs : Demucs settings)
    (trained : settings.Trained demucs.model.freqEmb.bins) {mix longer : Tensor K} {B T T' : Nat}
    (batch : 0 < B) (shape : mix.shape = [B, settings.audioChannels, T])
    (shape' : longer.shape = [B, settings.audioChannels, T']) (extends_by : T ≤ T')
    (fits : T' ≤ settings.trainingLength)
    (silent : ∀ b c t, b < B → c < settings.audioChannels → t < T' →
      longer.get [b, c, t] = if t < T then mix.get [b, c, t] else 0) :
    ∃ y y', demucs.forward runtime mix = .ok y ∧ demucs.forward runtime longer = .ok y' ∧
      y.shape = [B, settings.sources, settings.audioChannels, T] ∧
      y'.shape = [B, settings.sources, settings.audioChannels, T'] ∧
      ∀ b s c t, b < B → s < settings.sources → c < settings.audioChannels → t < T →
        y.get [b, s, c, t] = y'.get [b, s, c, t] := by
  obtain ⟨padded, padding, paddedShape, entry⟩ :=
    padded_segment shape (extends_by.trans fits)
  obtain ⟨padded', padding', paddedShape', entry'⟩ := padded_segment shape' fits
  -- Both are padded to the same.
  have same : padded' = padded := by
    apply Tensor.ext_get (paddedShape'.trans paddedShape.symm)
    intro index within
    rw [paddedShape'] at within
    obtain ⟨b, c, t, rfl, item, channel, sample⟩ := Tensor.within_three within
    rw [entry b c t item channel sample, entry' b c t item channel sample]
    by_cases inside : t < T'
    · rw [if_pos inside, silent b c t item channel inside]
    · rw [if_neg inside, if_neg (by omega)]
  subst same
  obtain ⟨out, y, separated, forward, yShape, yEntry⟩ := demucs.forward_of_padded runtime trained
    batch shape (extends_by.trans fits) padding paddedShape
  obtain ⟨out', y', separated', forward', yShape', yEntry'⟩ :=
    demucs.forward_of_padded runtime trained batch shape' fits padding' paddedShape'
  rw [separated] at separated'
  cases separated'
  refine ⟨y, y', forward, forward', yShape, yShape', fun b s c t item source channel sample => ?_⟩
  rw [yEntry b s c t item source channel sample,
    yEntry' b s c t item source channel (by omega)]

end

theorem one_level_silence :
    ∃ y y', oneLevelModel.forward realRuntime ⟨[1, 1, 2], [1, -2], rfl⟩ = .ok y ∧
      oneLevelModel.forward realRuntime ⟨[1, 1, 4], [1, -2, 0, 0], rfl⟩ = .ok y' ∧
      y.get [0, 0, 0, 0] = y'.get [0, 0, 0, 0] ∧ y.get [0, 0, 0, 1] = y'.get [0, 0, 0, 1] := by
  have silent : ∀ b c t, b < 1 → c < 1 → t < 4 →
      (⟨[1, 1, 4], [1, -2, 0, 0], rfl⟩ : Tensor ℝ).get [b, c, t] =
        if t < 2 then (⟨[1, 1, 2], [1, -2], rfl⟩ : Tensor ℝ).get [b, c, t] else 0 := by
    intro b c t item channel sample
    obtain rfl : b = 0 := by omega
    obtain rfl : c = 0 := by omega
    interval_cases t <;> rfl
  obtain ⟨y, y', forward, forward', -, -, same⟩ := oneLevelModel.forward_silence realRuntime
    (show oneLevel.Trained oneLevelModel.model.freqEmb.bins from oneLevel_trained)
    Nat.one_pos (show (⟨[1, 1, 2], [1, -2], rfl⟩ : Tensor ℝ).shape = [1, 1, 2] from rfl)
    (show (⟨[1, 1, 4], [1, -2, 0, 0], rfl⟩ : Tensor ℝ).shape = [1, 1, 4] from rfl) (by decide)
    (by rw [oneLevel_training]; decide) silent
  exact ⟨y, y', forward, forward', same 0 0 0 0 (by decide) (by decide) (by decide) (by decide),
    same 0 0 0 1 (by decide) (by decide) (by decide) (by decide)⟩

end Stemd.Mlx.HtDemucs
