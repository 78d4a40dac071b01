import Mathlib.Algebra.Field.Rat
import Stemd.Mlx.Channels
import Stemd.Mlx.Layers
import Stemd.Semantics.Fallible

/-! The two encoder stacks and the two decoder stacks, and the skips and lengths that pass
between them.

A length is rounded up to the stride on the way down and the rounding is cut off again on the
way up, so that each decoder gives back what its encoder saw. The frequency branch is exact at
every level and only the time branch has lengths to remember. -/

set_option autoImplicit false

namespace Stemd.Mlx.HtDemucs

open Stemd.Semantics

structure Config (K : Type) where
  depth : Nat
  channels : Nat
  audioChannels : Nat
  sources : Nat
  kernel : Nat
  stride : Nat
  context : Nat
  contextEnc : Nat
  freqEmbScale : K

section

variable {K : Type}

/-- Channels double at every step. -/
def Config.chout (config : Config K) (index : Nat) : Nat := config.channels * 2 ^ index

def Config.chinZ (config : Config K) (index : Nat) : Nat :=
  if index = 0 then config.audioChannels * 2 else config.chout index / 2

def Config.chinT (config : Config K) (index : Nat) : Nat :=
  if index = 0 then config.audioChannels else config.chout index / 2

def Config.decOutZ (config : Config K) (index : Nat) : Nat :=
  if index = 0 then config.audioChannels * config.sources * 2 else config.chinZ index

def Config.decOutT (config : Config K) (index : Nat) : Nat :=
  if index = 0 then config.audioChannels * config.sources else config.chinT index

end

/-- The frequency embedding, over 512 bins in the artefact. -/
structure FreqEmbedding (K : Type) where
  bins : Nat
  channels : Nat
  weight : Tensor K
  weightShape : weight.shape = [bins, channels]
  scale : K

/-- As many layers as the model is deep, each as it was loaded for its place. -/
def Stacked {α : Type} (layers : List α) (depth : Nat) (fits : Nat → α → Prop) : Prop :=
  layers.length = depth ∧ ∀ (i : Nat) (layer : α), layers[i]? = some layer → fits i layer

/-- The convolutional stacks, as they are loaded. Decoders mirror the encoders and are stored
in the order they run, so the last is the outermost. -/
structure Model {K : Type} [Field K] (config : Config K) where
  encoder : List (EncLayer K)
  tencoder : List (EncLayer K)
  decoder : List (DecLayer K)
  tdecoder : List (DecLayer K)
  freqEmb : FreqEmbedding K
  encoderFits : Stacked encoder config.depth fun i layer => layer.Fits .frequency
    (config.chinZ i) (config.chout i) config.kernel config.stride config.contextEnc
  tencoderFits : Stacked tencoder config.depth fun i layer => layer.Fits .time
    (config.chinT i) (config.chout i) config.kernel config.stride config.contextEnc
  decoderFits : Stacked decoder config.depth fun i layer => layer.Fits .frequency
    (config.chout (config.depth - 1 - i)) (config.decOutZ (config.depth - 1 - i))
    config.kernel config.stride config.context
  tdecoderFits : Stacked tdecoder config.depth fun i layer => layer.Fits .time
    (config.chout (config.depth - 1 - i)) (config.decOutT (config.depth - 1 - i))
    config.kernel config.stride config.context
  freqEmbFits : freqEmb.channels = config.channels

/-- Both branches, and what has been put aside on the way down, the last on top. -/
structure Branches (K : Type) where
  x : Tensor K
  xt : Tensor K
  saved : List (Tensor K)
  savedT : List (Tensor K)
  lengths : List Nat
  lengthsT : List Nat

inductive DecodeError where
  /-- A stack with nothing left on it, which panics with what was expected there. -/
  | exhausted (expected : String)
  /-- `tdecoder[index - offset]` past its end, which panics. -/
  | bounds
  /-- `skip connections were not fully consumed` -/
  | unconsumed
  | layer (error : SpectralError)
  deriving DecidableEq, Repr

def layered {α : Type} : Except SpectralError α → Except DecodeError α
  | .ok value => .ok value
  | .error error => .error (.layer error)

def popped {α : Type} (expected : String) : List α → Except DecodeError (α × List α)
  | [] => .error (.exhausted expected)
  | top :: rest => .ok (top, rest)

section

variable {K : Type} [Field K]

/-- `[bins, channels] -> [1, channels, bins, 1]` -/
def FreqEmbedding.forward (emb : FreqEmbedding K) (bins : Nat) :
    Except SpectralError (Tensor K) := do
  let rows ← fitting (emb.weight.slice 0 0 bins)
  let scaled := rows.map fun v => v * emb.scale
  let t ← fitting (scaled.transposeAxes [1, 0])
  let [channels, bins] := t.shape | throw .array
  fitting (t.reshape [1, channels, bins, 1])

variable {config : Config K}

/-- The embedding, added after the first layer only. -/
def Model.embedded (model : Model config) (index : Nat) (x : Tensor K) :
    Except SpectralError (Tensor K) :=
  if index = 0 then do
    let _ :: _ :: bins :: _ := x.shape | throw .array
    let emb ← model.freqEmb.forward bins
    fitting (x.zipWith (· + ·) (emb.map fun v => v * config.freqEmbScale))
  else .ok x

def encodeTime (act : Activations K) (tenc : Option (EncLayer K)) (s : Branches K) :
    Except SpectralError (Branches K × Option (Tensor K)) :=
  match tenc with
  | none => .ok (s, none)
  | some tenc => do
      let (_, le) ← lastAxis s.xt
      let xt ← tenc.forward act s.xt none
      if tenc.empty then
        return ({ s with xt := xt, lengthsT := le :: s.lengthsT }, some xt)
      else
        return ({ s with xt := xt, lengthsT := le :: s.lengthsT, savedT := xt :: s.savedT }, none)

def Model.encodeStep (act : Activations K) (model : Model config) (s : Branches K)
    (layer : EncLayer K × Nat) : Except SpectralError (Branches K) := do
  let (_, le) ← lastAxis s.x
  let (s, inject) ← encodeTime act model.tencoder[layer.2]? s
  let x ← layer.1.forward act s.x inject
  let x ← model.embedded layer.2 x
  return { s with x := x, saved := x :: s.saved, lengths := le :: s.lengths }

/-- Both encoder stacks, interleaved. -/
def Model.encode (act : Activations K) (model : Model config) (x xt : Tensor K) :
    Except SpectralError (Branches K) :=
  model.encoder.zipIdx.foldlM (model.encodeStep act) ⟨x, xt, [], [], [], []⟩

def decodeTime (act : Activations K) (tdec : DecLayer K) (pre : Tensor K) (s : Branches K) :
    Except DecodeError (Branches K) := do
  let (length, lengthsT) ← popped "one length per time encoder" s.lengthsT
  if tdec.empty then
    -- The frequency branch's own output seeds the time branch.
    let pre ← layered (fitting (pre.select 2 0))
    let (xt, _) ← layered (tdec.forward act pre none length)
    return { s with xt := xt, lengthsT := lengthsT }
  else
    let (skip, savedT) ← popped "one skip per time encoder" s.savedT
    let (xt, _) ← layered (tdec.forward act s.xt (some skip) length)
    return { s with xt := xt, lengthsT := lengthsT, savedT := savedT }

def Model.decodeStep (act : Activations K) (model : Model config) (s : Branches K)
    (layer : DecLayer K × Nat) : Except DecodeError (Branches K) := do
  let offset := config.depth - model.tdecoder.length
  let (skip, saved) ← popped "one skip per encoder layer" s.saved
  let (length, lengths) ← popped "one length per encoder layer" s.lengths
  let (out, pre) ← layered (layer.1.forward act s.x (some skip) length)
  let s := { s with x := out, saved := saved, lengths := lengths }
  if layer.2 ≥ offset then
    match model.tdecoder[layer.2 - offset]? with
    | some tdec => decodeTime act tdec pre s
    | none => .error .bounds
  else return s

def Model.decodeUpTo (act : Activations K) (model : Model config) (count : Nat)
    (s : Branches K) : Except DecodeError (Branches K) :=
  (model.decoder.zipIdx.take count).foldlM (model.decodeStep act) s

/-- Both decoder stacks, consuming the skips in reverse. -/
def Model.decode (act : Activations K) (model : Model config) (s : Branches K) :
    Except DecodeError (Tensor K × Tensor K) := do
  let s ← model.decodeUpTo act model.decoder.length s
  if !s.saved.isEmpty || !s.savedT.isEmpty then .error .unconsumed else .ok (s.x, s.xt)

end

def level (T : Nat) : Nat → Nat
  | 0 => T
  | i + 1 => (level T i + 3) / 4

theorem level_pos {T : Nat} (samples : 1 ≤ T) (i : Nat) : 0 < level T i := by
  induction i with
  | zero => exact samples
  | succ i ih =>
      rw [level]
      omega

section

variable {K : Type} [Field K] {config : Config K}

omit [Field K] in
theorem chout_half (config : Config K) (i : Nat) : config.chout (i + 1) / 2 = config.chout i := by
  rw [Config.chout, Nat.pow_succ, ← Nat.mul_assoc, Nat.mul_div_cancel _ (by omega), Config.chout]

omit [Field K] in
theorem chinZ_succ (config : Config K) (i : Nat) : config.chinZ (i + 1) = config.chout i :=
  (if_neg (Nat.succ_ne_zero i)).trans (chout_half config i)

omit [Field K] in
theorem chinT_succ (config : Config K) (i : Nat) : config.chinT (i + 1) = config.chout i :=
  (if_neg (Nat.succ_ne_zero i)).trans (chout_half config i)

theorem bins_succ {depth i : Nat} (below : i < depth) (m : Nat) :
    m * 4 ^ (depth - i) = 4 * (m * 4 ^ (depth - (i + 1))) := by
  have deeper : depth - i = depth - (i + 1) + 1 := by omega
  rw [deeper, Nat.pow_succ]
  ring

theorem FreqEmbedding.yields (emb : FreqEmbedding K) {bins : Nat} (inside : bins ≤ emb.bins) :
    Yields (emb.forward bins) [1, emb.channels, bins, 1] := by
  apply (yields_slice [] [emb.channels] emb.weightShape 0 bins
    (show (0 : Int) = (0 : Nat) from rfl) (show (bins : Int) = (0 : Nat) + bins by simp)
    (by omega)).bind
  intro rows rowsShape
  have scaledShape : (rows.map fun v => v * emb.scale).shape = [bins, emb.channels] := rowsShape
  have rank : (rows.map fun v => v * emb.scale).shape.length = 2 := by rw [scaledShape]; rfl
  have order : [1, 0].Perm (List.range (rows.map fun v => v * emb.scale).shape.length) := by
    rw [rank]
    decide
  obtain ⟨t, transposed, tShape, -⟩ := Tensor.transposeAxes_spec order
  rw [scaledShape] at tShape
  apply (Yields.fits transposed tShape).bind
  intro t tShape
  have flipped : t.shape = [emb.channels, bins] := tShape
  rw [flipped]
  exact yields_reshape _ (by rw [flipped]; simp)

theorem Model.embedded_yields (model : Model config) {i : Nat} {x : Tensor K} {B f N : Nat}
    (shape : x.shape = [B, config.chout i, f, N]) (table : i = 0 → f ≤ model.freqEmb.bins) :
    Yields (model.embedded i x) [B, config.chout i, f, N] := by
  unfold Model.embedded
  split
  · next outermost =>
      subst outermost
      rw [shape]
      dsimp only
      apply (model.freqEmb.yields (table rfl)).bind
      intro emb embShape
      have channels : config.chout 0 = model.freqEmb.channels := by
        rw [Config.chout, model.freqEmbFits]
        simp
      apply yields_zipWith
      rw [shape, Tensor.map_shape, embShape, channels]
      simp [Tensor.broadcast, Tensor.stretch]
  · exact .ok shape

structure Descended (config : Config K) (B T m N i : Nat) (s : Branches K) : Prop where
  x : s.x.shape = [B, config.chinZ i, m * 4 ^ (config.depth - i), N]
  xt : s.xt.shape = [B, config.chinT i, level T i]
  saved : s.saved.map Tensor.shape = (List.range i).reverse.map fun k =>
    [B, config.chout k, m * 4 ^ (config.depth - (k + 1)), N]
  savedT : s.savedT.map Tensor.shape = (List.range i).reverse.map fun k =>
    [B, config.chout k, level T (k + 1)]
  lengths : s.lengths = (List.range i).reverse.map fun _ => N
  lengthsT : s.lengthsT = (List.range i).reverse.map (level T)

theorem Model.encodeStep_spec (act : Activations K) (model : Model config)
    (eight : config.kernel = 8) (four : config.stride = 4) {B T m N i : Nat} (samples : 1 ≤ T)
    (bins : 1 ≤ m) (frames : 1 ≤ N) (table : m * 4 ^ (config.depth - 1) ≤ model.freqEmb.bins)
    {layer : EncLayer K} {s : Branches K} (at_i : model.encoder[i]? = some layer)
    (before : Descended config B T m N i s) :
    ∃ s', model.encodeStep act s (layer, i) = .ok s' ∧ Descended config B T m N (i + 1) s' := by
  have fits := model.encoderFits.2 i layer at_i
  obtain ⟨bound, -⟩ := List.getElem?_eq_some_iff.mp at_i
  rw [model.encoderFits.1] at bound
  -- Both stacks are as deep, so every layer has its time layer.
  have at_t : ∃ tenc, model.tencoder[i]? = some tenc := by
    refine ⟨_, List.getElem?_eq_getElem (i := i) ?_⟩
    rw [model.tencoderFits.1]
    exact bound
  obtain ⟨tenc, at_t⟩ := at_t
  have fitsT := model.tencoderFits.2 i tenc at_t
  rw [eight, four] at fits fitsT
  obtain ⟨xt, timed, xtShape⟩ :=
    EncLayer.yields_time act fitsT before.xt (level_pos samples i)
  -- The bins left are still a multiple of four, so that nothing is rounded.
  have deeper : s.x.shape = [B, config.chinZ i, 4 * (m * 4 ^ (config.depth - (i + 1))), N] := by
    rw [before.x, bins_succ bound]
  obtain ⟨y, convolved, yShape⟩ := EncLayer.yields_frequency act fits deeper
    (Nat.mul_pos bins (Nat.pow_pos (by omega))) frames
  obtain ⟨x, embedded, xShape⟩ := model.embedded_yields yShape fun outermost => by
    subst outermost
    exact table
  have axis : lastAxis s.x = .ok (3, N) :=
    lastAxis_eq (show s.x.shape = [B, _, _] ++ [N] from before.x)
  have axisT : lastAxis s.xt = .ok (2, level T i) :=
    lastAxis_eq (show s.xt.shape = [B, _] ++ [level T i] from before.xt)
  refine ⟨⟨x, xt, x :: s.saved, xt :: s.savedT, N :: s.lengths, level T i :: s.lengthsT⟩, ?_, ?_⟩
  · simp only [Model.encodeStep, encodeTime, at_t, axis, axisT, timed, convolved, embedded,
      fitsT.empty, Bool.false_eq_true, if_false, pure, Except.pure, bind, Except.bind]
  · constructor
    · rw [xShape, chinZ_succ]
    · rw [xtShape, chinT_succ, level]
    · rw [List.map_cons, xShape, before.saved, List.range_succ, List.reverse_append,
        List.reverse_singleton, List.singleton_append, List.map_cons]
    · rw [List.map_cons, xtShape, before.savedT, List.range_succ, List.reverse_append,
        List.reverse_singleton, List.singleton_append, List.map_cons, level]
    · rw [before.lengths, List.range_succ, List.reverse_append, List.reverse_singleton,
        List.singleton_append, List.map_cons]
    · rw [before.lengthsT, List.range_succ, List.reverse_append, List.reverse_singleton,
        List.singleton_append, List.map_cons]

theorem Model.encode_spec (act : Activations K) (model : Model config)
    (eight : config.kernel = 8) (four : config.stride = 4) {B T m N : Nat} (samples : 1 ≤ T)
    (bins : 1 ≤ m) (frames : 1 ≤ N) (table : m * 4 ^ (config.depth - 1) ≤ model.freqEmb.bins)
    {x xt : Tensor K} (xShape : x.shape = [B, config.audioChannels * 2, m * 4 ^ config.depth, N])
    (xtShape : xt.shape = [B, config.audioChannels, T]) :
    ∃ e, model.encode act x xt = .ok e ∧ Descended config B T m N config.depth e := by
  -- By induction on the layers that have run, with `Descended` as the invariant.
  have start : Descended config B T m N 0 ⟨x, xt, [], [], [], []⟩ :=
    ⟨xShape, xtShape, rfl, rfl, rfl, rfl⟩
  have run := foldlM_zipIdx (model.encodeStep act) model.encoder
    (Descended config B T m N) start
    (fun i layer s at_i before =>
      model.encodeStep_spec act eight four samples bins frames table at_i before)
    config.depth (by rw [model.encoderFits.1])
  rwa [← model.encoderFits.1, List.take_of_length_le (by simp), model.encoderFits.1] at run

omit [Field K] in
theorem drop_pushed {α β : Type} {stack : List α} {g : α → β} {n j : Nat} {f : Nat → β}
    (pushed : stack.map g = (List.range n).reverse.map f) (below : j < n) :
    ∃ top, stack.drop j = top :: stack.drop (j + 1) ∧ g top = f (n - 1 - j) := by
  have length : stack.length = n := by
    have both := congrArg List.length pushed
    simpa using both
  have bound : j < stack.length := by omega
  refine ⟨stack[j], List.drop_eq_getElem_cons bound, ?_⟩
  have here := congrArg (fun l => l[j]?) pushed
  simpa [List.getElem?_reverse, bound, below, List.getElem?_range] using here

structure Ascended (config : Config K) (B T m N j : Nat) (e s : Branches K) : Prop where
  x : ∃ c, s.x.shape = [B, c, m * 4 ^ j, N] ∧
    (j < config.depth → c = config.chout (config.depth - 1 - j))
  xt : ∃ c, s.xt.shape = [B, c, level T (config.depth - j)] ∧
    (j < config.depth → c = config.chout (config.depth - 1 - j))
  saved : s.saved = e.saved.drop j
  savedT : s.savedT = e.savedT.drop j
  lengths : s.lengths = e.lengths.drop j
  lengthsT : s.lengthsT = e.lengthsT.drop j

omit [Field K] in
theorem Ascended.tops {B T m N j : Nat} {e s : Branches K}
    (down : Descended config B T m N config.depth e) (up : Ascended config B T m N j e s)
    (below : j < config.depth) :
    ∃ skip skipT length, s.saved = skip :: e.saved.drop (j + 1) ∧ skip.shape = s.x.shape ∧
      s.savedT = skipT :: e.savedT.drop (j + 1) ∧ skipT.shape = s.xt.shape ∧
      s.lengths = length :: e.lengths.drop (j + 1) ∧
      s.lengthsT = level T (config.depth - 1 - j) :: e.lengthsT.drop (j + 1) := by
  obtain ⟨c, xShape, cIs⟩ := up.x
  obtain ⟨cT, xtShape, cTIs⟩ := up.xt
  obtain ⟨skip, saved, skipShape⟩ := drop_pushed down.saved below
  obtain ⟨skipT, savedT, skipTShape⟩ := drop_pushed down.savedT below
  obtain ⟨length, lengths, -⟩ := drop_pushed (g := id) ((List.map_id _).trans down.lengths) below
  obtain ⟨lengthT, lengthsT, lengthTIs⟩ :=
    drop_pushed (g := id) ((List.map_id _).trans down.lengthsT) below
  have here : config.depth - (config.depth - 1 - j + 1) = j := by omega
  have next : config.depth - 1 - j + 1 = config.depth - j := by omega
  rw [here] at skipShape
  rw [next] at skipTShape
  refine ⟨skip, skipT, length, up.saved.trans saved, ?_, up.savedT.trans savedT, ?_,
    up.lengths.trans lengths, up.lengthsT.trans (lengthsT.trans ?_)⟩
  · rw [skipShape, xShape, cIs below]
  · rw [skipTShape, xtShape, cTIs below]
  · rw [← lengthTIs]
    rfl

omit [Field K] in
theorem decOut_next (config : Config K) {j : Nat} (below : j + 1 < config.depth) :
    config.decOutZ (config.depth - 1 - j) = config.chout (config.depth - 1 - (j + 1)) ∧
      config.decOutT (config.depth - 1 - j) = config.chout (config.depth - 1 - (j + 1)) := by
  have next : config.depth - 1 - j = config.depth - 1 - (j + 1) + 1 := by omega
  rw [next]
  exact ⟨(if_neg (Nat.succ_ne_zero _)).trans (chinZ_succ config _),
    (if_neg (Nat.succ_ne_zero _)).trans (chinT_succ config _)⟩

omit [Field K] in
theorem decOut_sources (config : Config K) :
    config.decOutZ 0 = config.sources * config.chinZ 0 := by
  rw [Config.decOutZ, Config.chinZ, if_pos rfl, if_pos rfl]
  ring

theorem decOut_spectra (config : Config K) {x : Tensor K} {B F N : Nat}
    (shape : x.shape = [B, config.decOutZ 0, F, N]) :
    ∃ parted z, x.reshape [B, config.sources, config.audioChannels * 2, F, N] = some parted ∧
      channelsAsComplex parted = .ok z ∧
      z.shape = [B, config.sources, config.audioChannels, F, N] ∧
      ∀ b s c f n, b < B → s < config.sources → c < config.audioChannels → f < F → n < N →
        z.get [b, s, c, f, n] = ⟨x.get [b, s * (config.audioChannels * 2) + c * 2, f, n],
          x.get [b, s * (config.audioChannels * 2) + (c * 2 + 1), f, n]⟩ := by
  rw [decOut_sources] at shape
  obtain ⟨parted, reshaped, partedShape, partedEntry⟩ :=
    Tensor.splitAxis_spec [B] config.sources (config.audioChannels * 2) [F, N] shape
  obtain ⟨z, joined, zShape, zEntry⟩ := channelsAsComplex_spec partedShape
  refine ⟨parted, z, reshaped, joined, zShape, ?_⟩
  intro b s c f n row source channel bin frame
  rw [zEntry b s c f n row source channel bin frame]
  exact congrArg₂ Complex64.mk (partedEntry [b] s (c * 2) [f, n] rfl)
    (partedEntry [b] s (c * 2 + 1) [f, n] rfl)

theorem Model.decodeStep_shapes (act : Activations K) (model : Model config)
    (eight : config.kernel = 8) (four : config.stride = 4) {B T m N j : Nat} (samples : 1 ≤ T)
    (bins : 1 ≤ m) (frames : 1 ≤ N) {e s : Branches K}
    (down : Descended config B T m N config.depth e) {layer : DecLayer K}
    (at_j : model.decoder[j]? = some layer) (before : Ascended config B T m N j e s) :
    ∃ s', model.decodeStep act s (layer, j) = .ok s' ∧ Ascended config B T m N (j + 1) e s' ∧
      s'.x.shape = [B, config.decOutZ (config.depth - 1 - j), m * 4 ^ (j + 1), N] ∧
      s'.xt.shape = [B, config.decOutT (config.depth - 1 - j),
        level T (config.depth - (j + 1))] := by
  have fits := model.decoderFits.2 j layer at_j
  obtain ⟨bound, -⟩ := List.getElem?_eq_some_iff.mp at_j
  rw [model.decoderFits.1] at bound
  obtain ⟨tdec, at_t⟩ : ∃ tdec, model.tdecoder[j]? = some tdec := by
    refine ⟨_, List.getElem?_eq_getElem (i := j) ?_⟩
    rw [model.tdecoderFits.1]
    exact bound
  have fitsT := model.tdecoderFits.2 j tdec at_t
  rw [eight, four] at fits fitsT
  obtain ⟨skip, skipT, length, saved, skipShape, savedT, skipTShape, lengths, lengthsT⟩ :=
    before.tops down bound
  obtain ⟨c, xShape, cIs⟩ := before.x
  obtain ⟨cT, xtShape, cTIs⟩ := before.xt
  rw [cIs bound] at xShape
  rw [cTIs bound] at xtShape
  -- What the encoder made of this length, rounded up, is long enough to cut it from.
  have rounded : level T (config.depth - j) = (level T (config.depth - 1 - j) + 3) / 4 := by
    have next : config.depth - j = config.depth - 1 - j + 1 := by omega
    rw [next, level]
  obtain ⟨out, pre, decoded, outShape⟩ := DecLayer.yields_frequency act fits length xShape
    skipShape (Nat.mul_pos bins (Nat.pow_pos (by omega))) frames
  obtain ⟨xt, preT, decodedT, outTShape⟩ := DecLayer.yields_time act fitsT
    (level T (config.depth - 1 - j)) xtShape skipTShape (level_pos samples _)
    (by rw [rounded]; omega)
  have offset : config.depth - model.tdecoder.length = 0 := by
    rw [model.tdecoderFits.1, Nat.sub_self]
  have shallower : m * 4 ^ (j + 1) = 4 * (m * 4 ^ j) := by ring
  have above : config.depth - (j + 1) = config.depth - 1 - j := by omega
  refine ⟨⟨out, xt, e.saved.drop (j + 1), e.savedT.drop (j + 1), e.lengths.drop (j + 1),
    e.lengthsT.drop (j + 1)⟩, ?_, ?_, ?_, ?_⟩
  · simp only [Model.decodeStep, decodeTime, saved, savedT, lengths, lengthsT, popped, decoded,
      decodedT, layered, offset, Nat.sub_zero, at_t, fitsT.empty, ge_iff_le, Nat.zero_le, if_true,
      Bool.false_eq_true, if_false, pure, Except.pure, bind, Except.bind]
  · refine ⟨⟨_, by rw [outShape, shallower], fun later => (decOut_next config later).1⟩,
      ⟨_, by rw [outTShape, above], fun later => (decOut_next config later).2⟩, rfl, rfl, rfl, rfl⟩
  · rw [outShape, shallower]
  · rw [outTShape, above]

theorem Model.decodeStep_spec (act : Activations K) (model : Model config)
    (eight : config.kernel = 8) (four : config.stride = 4) {B T m N j : Nat} (samples : 1 ≤ T)
    (bins : 1 ≤ m) (frames : 1 ≤ N) {e s : Branches K}
    (down : Descended config B T m N config.depth e) {layer : DecLayer K}
    (at_j : model.decoder[j]? = some layer) (before : Ascended config B T m N j e s) :
    ∃ s', model.decodeStep act s (layer, j) = .ok s' ∧
      Ascended config B T m N (j + 1) e s' := by
  obtain ⟨s', decoded, after, -⟩ :=
    model.decodeStep_shapes act eight four samples bins frames down at_j before
  exact ⟨s', decoded, after⟩

theorem Model.decodeUpTo_spec (act : Activations K) (model : Model config)
    (eight : config.kernel = 8) (four : config.stride = 4) {B T m N : Nat} (samples : 1 ≤ T)
    (bins : 1 ≤ m) (frames : 1 ≤ N) {e : Branches K}
    (down : Descended config B T m N config.depth e) {x xt : Tensor K}
    (xShape : x.shape = e.x.shape) (xtShape : xt.shape = e.xt.shape) :
    ∀ j ≤ config.depth, ∃ s, model.decodeUpTo act j { e with x := x, xt := xt } = .ok s ∧
      Ascended config B T m N j e s := by
  have bottom : Ascended config B T m N 0 e { e with x := x, xt := xt } := by
    -- A model without layers has no channels to agree on.
    have deepest : 0 < config.depth → config.depth = config.depth - 1 - 0 + 1 := by omega
    refine ⟨⟨config.chinZ config.depth, ?_, fun deep => ?_⟩,
      ⟨config.chinT config.depth, xtShape.trans down.xt, fun deep => ?_⟩, rfl, rfl, rfl, rfl⟩
    · have here := xShape.trans down.x
      rwa [Nat.sub_self] at here
    · rw [deepest deep, chinZ_succ, ← deepest deep]
    · rw [deepest deep, chinT_succ, ← deepest deep]
  intro j bound
  exact foldlM_zipIdx _ _ (Ascended config B T m N · e) bottom
    (fun i layer s at_i before =>
      model.decodeStep_spec act eight four samples bins frames down at_i before)
    j (by rw [model.decoderFits.1]; exact bound)

/-- Each decoder gives back the length its encoder saw, and the last the length of the input.
The first part is about the time layers alone; the second about the two loops as they run, with
any tensors of the same shapes in between. -/
theorem lengths_close (act : Activations K) (eight : config.kernel = 8)
    (four : config.stride = 4) (model : Model config) {T : Nat} (samples : 1 ≤ T) (B : Nat) :
    (∀ i < config.depth, ∃ tenc tdec, model.tencoder[i]? = some tenc ∧
      model.tdecoder[config.depth - 1 - i]? = some tdec ∧
      (∀ y : Tensor K, y.shape = [B, config.chinT i, level T i] →
        Yields (tenc.forward act y none) [B, config.chout i, level T (i + 1)]) ∧
      ∀ y skip : Tensor K, y.shape = [B, config.chout i, level T (i + 1)] →
        skip.shape = y.shape → ∃ z pre, tdec.forward act y (some skip) (level T i) =
          .ok (z, pre) ∧ z.shape = [B, config.decOutT i, level T i]) ∧
    ∀ (m N : Nat) (x xt : Tensor K), 1 ≤ m → 1 ≤ N →
      m * 4 ^ (config.depth - 1) ≤ model.freqEmb.bins →
      x.shape = [B, config.audioChannels * 2, m * 4 ^ config.depth, N] →
      xt.shape = [B, config.audioChannels, T] →
      ∃ e, model.encode act x xt = .ok e ∧
        e.lengthsT = (List.range config.depth).reverse.map (level T) ∧
        (e.savedT.map Tensor.shape = (List.range config.depth).reverse.map fun i =>
          [B, config.chout i, level T (i + 1)]) ∧
        ∀ y yt : Tensor K, y.shape = e.x.shape → yt.shape = e.xt.shape →
          (∀ j ≤ config.depth, ∃ s,
            model.decodeUpTo act j { e with x := y, xt := yt } = .ok s ∧
            s.xt.shape.getLast? = some (level T (config.depth - j)) ∧
            s.saved = e.saved.drop j ∧ s.savedT = e.savedT.drop j ∧
            s.lengths = e.lengths.drop j ∧ s.lengthsT = e.lengthsT.drop j ∧
            (j < config.depth → ∃ skip skipT, s.saved.head? = some skip ∧
              skip.shape = s.x.shape ∧ s.savedT.head? = some skipT ∧
              skipT.shape = s.xt.shape ∧
              s.lengthsT.head? = some (level T (config.depth - 1 - j)))) ∧
          ∃ out, model.decode act { e with x := y, xt := yt } = .ok out ∧
            out.2.shape.getLast? = some T := by
  refine ⟨fun i below => ?_, fun m N x xt bins frames table xShape xtShape => ?_⟩
  · have up : config.depth - 1 - i < config.depth := by omega
    obtain ⟨tenc, at_i⟩ : ∃ tenc, model.tencoder[i]? = some tenc :=
      ⟨_, List.getElem?_eq_getElem (by rw [model.tencoderFits.1]; exact below)⟩
    obtain ⟨tdec, at_up⟩ : ∃ tdec, model.tdecoder[config.depth - 1 - i]? = some tdec :=
      ⟨_, List.getElem?_eq_getElem (by rw [model.tdecoderFits.1]; exact up)⟩
    have encFits := model.tencoderFits.2 i tenc at_i
    have decFits := model.tdecoderFits.2 _ tdec at_up
    have back : config.depth - 1 - (config.depth - 1 - i) = i := by omega
    rw [eight, four] at encFits decFits
    rw [back] at decFits
    refine ⟨tenc, tdec, at_i, at_up, fun y shape => ?_, fun y skip shape same => ?_⟩
    · exact EncLayer.yields_time act encFits shape (level_pos samples i)
    · exact DecLayer.yields_time act decFits _ shape same (level_pos samples _)
        (by rw [level]; omega)
  · obtain ⟨e, encoded, down⟩ :=
      model.encode_spec act eight four samples bins frames table xShape xtShape
    refine ⟨e, encoded, down.lengthsT, down.savedT, fun y yt yShape ytShape => ?_⟩
    have run := model.decodeUpTo_spec act eight four samples bins frames down yShape ytShape
    constructor
    · intro j bound
      obtain ⟨s, decoded, up⟩ := run j bound
      obtain ⟨c, sShape, -⟩ := up.xt
      refine ⟨s, decoded, by rw [sShape]; rfl, up.saved, up.savedT, up.lengths, up.lengthsT,
        fun below => ?_⟩
      obtain ⟨skip, skipT, length, saved, skipShape, savedT, skipTShape, -, lengthsT⟩ :=
        up.tops down below
      exact ⟨skip, skipT, by rw [saved]; rfl, skipShape, by rw [savedT]; rfl, skipTShape,
        by rw [lengthsT]; rfl⟩
    · obtain ⟨s, decoded, up⟩ := run config.depth (Nat.le_refl _)
      obtain ⟨c, sShape, -⟩ := up.xt
      rw [Nat.sub_self] at sShape
      -- As many were pushed as there are decoders to pop them.
      have emptied : ∀ {α : Type} {shape : α → List Nat} {stack : List α} {f : Nat → List Nat},
          stack.map shape = (List.range config.depth).reverse.map f →
          stack.drop config.depth = [] := by
        intro α shape stack f pushed
        have both := congrArg List.length pushed
        apply List.drop_eq_nil_of_le
        simpa using Nat.le_of_eq both
      have saved : s.saved = [] := up.saved.trans (emptied down.saved)
      have savedT : s.savedT = [] := up.savedT.trans (emptied down.savedT)
      refine ⟨(s.x, s.xt), ?_, by rw [sShape]; rfl⟩
      simp only [Model.decode, model.decoderFits.1, decoded, saved, savedT, bind, Except.bind]
      rfl

end

theorem unbiased {chout : Nat} : ∀ b : Tensor ℚ, none = some b → b.shape = [chout] := by
  intro b is
  cases is

def zeroConv1d (chin chout kernel stride padding : Nat) : Conv1d ℚ where
  chin := chin
  chout := chout
  kernel := kernel
  stride := stride
  padding := padding
  dilation := 1
  weight := .build [chout, kernel, chin] fun _ => 0
  weightShape := rfl
  bias := none
  biasShape := unbiased

def zeroConv2d (chin chout : Nat) (kernel stride padding : Nat × Nat) : Conv2d ℚ where
  chin := chin
  chout := chout
  kernel := kernel
  stride := stride
  padding := padding
  weight := .build [chout, kernel.1, kernel.2, chin] fun _ => 0
  weightShape := rfl
  bias := none
  biasShape := unbiased

def pairConfig : Config ℚ where
  depth := 2
  channels := 1
  audioChannels := 1
  sources := 1
  kernel := 8
  stride := 4
  context := 1
  contextEnc := 0
  freqEmbScale := 1

def zeroEnc (chinZ chinT chout : Nat) : Domain → EncLayer ℚ
  | .frequency =>
      { conv := .freq (zeroConv2d chinZ chout (8, 1) (4, 1) (2, 0)),
        rewrite := some (.freq (zeroConv2d chout (2 * chout) (1, 1) (1, 1) (0, 0))),
        dconv := none, domain := .frequency, stride := 4, empty := false }
  | .time =>
      { conv := .time (zeroConv1d chinT chout 8 4 2),
        rewrite := some (.time (zeroConv1d chout (2 * chout) 1 1 0)),
        dconv := none, domain := .time, stride := 4, empty := false }

def zeroDec (chin outZ outT : Nat) (last : Bool) : Domain → DecLayer ℚ
  | .frequency =>
      { convTr := .freq ⟨chin, outZ, (8, 1), (4, 1), .build [outZ, 8, 1, chin] fun _ => 0, rfl,
          none, unbiased⟩,
        rewrite := some (.freq (zeroConv2d chin (2 * chin) (3, 3) (1, 1) (1, 1))),
        dconv := none, domain := .frequency, chin := chin, pad := 2, last := last,
        empty := false }
  | .time =>
      { convTr := .time ⟨chin, outT, 8, 4, .build [outT, 8, chin] fun _ => 0, rfl, none,
          unbiased⟩,
        rewrite := some (.time (zeroConv1d chin (2 * chin) 3 1 1)),
        dconv := none, domain := .time, chin := chin, pad := 2, last := last, empty := false }

theorem stacked_two {α : Type} {fits : Nat → α → Prop} {a b : α} (first : fits 0 a)
    (second : fits 1 b) : Stacked [a, b] 2 fits := by
  refine ⟨rfl, fun i layer at_i => ?_⟩
  match i with
  | 0 => cases at_i; exact first
  | 1 => cases at_i; exact second
  | i + 2 => simp at at_i

def zeroModel : Model pairConfig where
  encoder := [zeroEnc 2 1 1 .frequency, zeroEnc 1 1 2 .frequency]
  tencoder := [zeroEnc 2 1 1 .time, zeroEnc 1 1 2 .time]
  decoder := [zeroDec 2 1 1 false .frequency, zeroDec 1 2 1 true .frequency]
  tdecoder := [zeroDec 2 1 1 false .time, zeroDec 1 2 1 true .time]
  freqEmb := ⟨512, 1, .build [512, 1] fun _ => 0, rfl, 10⟩
  encoderFits := stacked_two
    ⟨rfl, rfl, rfl, rfl, ⟨_, rfl, rfl⟩, fun _ is => by cases is⟩
    ⟨rfl, rfl, rfl, rfl, ⟨_, rfl, rfl⟩, fun _ is => by cases is⟩
  tencoderFits := stacked_two
    ⟨rfl, rfl, rfl, rfl, ⟨_, rfl, rfl⟩, fun _ is => by cases is⟩
    ⟨rfl, rfl, rfl, rfl, ⟨_, rfl, rfl⟩, fun _ is => by cases is⟩
  decoderFits := stacked_two
    ⟨rfl, rfl, rfl, ⟨rfl, rfl, rfl, rfl⟩, ⟨_, rfl, rfl⟩, fun _ is => by cases is⟩
    ⟨rfl, rfl, rfl, ⟨rfl, rfl, rfl, rfl⟩, ⟨_, rfl, rfl⟩, fun _ is => by cases is⟩
  tdecoderFits := stacked_two
    ⟨rfl, rfl, rfl, ⟨rfl, rfl, rfl, rfl⟩, ⟨_, rfl, rfl⟩, fun _ is => by cases is⟩
    ⟨rfl, rfl, rfl, ⟨rfl, rfl, rfl, rfl⟩, ⟨_, rfl, rfl⟩, fun _ is => by cases is⟩
  freqEmbFits := rfl

def restActivations : Activations ℚ where
  erf v := v
  sigmoid v := 1 / 2 + v / 4
  sqrt2 := 7 / 5
  layerNorm values := values
  layerNorm_length _ := rfl

/-- Twenty-one samples are six, then two, and come back as twenty-one. -/
theorem pair_lengths_close :
    (∃ e out, zeroModel.encode restActivations (.build [1, 2, 16, 1] fun _ => 0)
        (.build [1, 1, 21] fun _ => 0) = .ok e ∧ e.lengthsT = [6, 21] ∧
      zeroModel.decode restActivations e = .ok out ∧ out.2.shape.getLast? = some 21) := by
  obtain ⟨-, loops⟩ := @lengths_close _ _ pairConfig restActivations rfl rfl zeroModel 21
    (show 1 ≤ 21 by decide) 1
  obtain ⟨e, encoded, lengths, -, decodes⟩ := loops 1 1 (.build [1, 2, 16, 1] fun _ => 0)
    (.build [1, 1, 21] fun _ => 0) (by decide) (by decide) (by decide) rfl rfl
  obtain ⟨-, out, decoded, outShape⟩ := decodes e.x e.xt rfl rfl
  exact ⟨e, out, encoded, lengths, decoded, outShape⟩

end Stemd.Mlx.HtDemucs
