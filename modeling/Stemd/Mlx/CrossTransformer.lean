import Stemd.Mlx.Blocks
import Stemd.Mlx.Positions

/-! The cross-domain transformer that joins the two branches.

Even layers attend within a branch and odd layers across, and each branch reads the other's value
before the layer. Everything here is channel-last, which is why the norms and the scale of the
convolutional blocks appear again. -/

set_option autoImplicit false

namespace Stemd.Mlx.Transformer

open Stemd.Semantics
open Stemd.Mlx.Roformer (Attending)

structure LayerNorm (K : Type) where
  dim : Nat
  weight : Tensor K
  weightShape : weight.shape = [dim]
  bias : Tensor K
  biasShape : bias.shape = [dim]

/-- The output norm: statistics across time and channels together, the affine per channel. -/
structure OutNorm (K : Type) where
  dim : Nat
  weight : Tensor K
  weightShape : weight.shape = [dim]
  bias : Tensor K
  biasShape : bias.shape = [dim]

structure LayerScale (K : Type) where
  dim : Nat
  scale : Tensor K
  scaleShape : scale.shape = [dim]

/-- A linear layer, stored `[chin, chout]`. -/
structure Linear (K : Type) where
  chin : Nat
  chout : Nat
  weight : Tensor K
  weightShape : weight.shape = [chin, chout]
  bias : Tensor K
  biasShape : bias.shape = [chout]

structure Attention (K : Type) where
  dim : Nat
  query : Linear K
  key : Linear K
  value : Linear K
  out : Linear K
  heads : Nat
  queryFits : query.chin = dim ∧ query.chout = dim
  keyFits : key.chin = dim ∧ key.chout = dim
  valueFits : value.chin = dim ∧ value.chout = dim
  outFits : out.chin = dim ∧ out.chout = dim

/-- One layer: without a third norm it attends to itself. -/
structure Layer (K : Type) where
  dim : Nat
  attn : Attention K
  norm1 : LayerNorm K
  norm2 : LayerNorm K
  norm3 : Option (LayerNorm K)
  linear1 : Linear K
  linear2 : Linear K
  gamma1 : LayerScale K
  gamma2 : LayerScale K
  normOut : OutNorm K
  attnFits : attn.dim = dim
  norm1Fits : norm1.dim = dim
  norm2Fits : norm2.dim = dim
  norm3Fits : ∀ norm, norm3 = some norm → norm.dim = dim
  linear1Fits : linear1.chin = dim
  linear2Fits : linear2.chin = linear1.chout ∧ linear2.chout = dim
  gamma1Fits : gamma1.dim = dim
  gamma2Fits : gamma2.dim = dim
  normOutFits : normOut.dim = dim

structure CrossTransformer (K : Type) where
  normIn : LayerNorm K
  normInT : LayerNorm K
  layers : List (Layer K)
  layersT : List (Layer K)
  dim : Nat
  heads : Nat
  normInFits : normIn.dim = dim
  normInTFits : normInT.dim = dim
  /-- Both stacks attend across in the same places. -/
  alternate : List.Forall₂ (fun layer layerT => layer.norm3.isSome = layerT.norm3.isSome)
    layers layersT
  layersFit : ∀ layer ∈ layers, layer.dim = dim ∧ layer.attn.heads = heads
  layersTFit : ∀ layer ∈ layersT, layer.dim = dim ∧ layer.attn.heads = heads

section

variable {K : Type} [Field K]

def affine (weight bias values : List K) : List K :=
  List.zipWith (· + ·) (List.zipWith (· * ·) values weight) bias

def LayerNorm.apply (act : Activations K) (norm : LayerNorm K) (values : List K) : List K :=
  affine norm.weight.data norm.bias.data (act.layerNorm values)

def LayerNorm.forward (act : Activations K) (norm : LayerNorm K) (x : Tensor K) :
    Except SpectralError (Tensor K) :=
  if x.shape.getLast? = some norm.dim then .ok (x.mapRows norm.dim (norm.apply act))
  else .error .array

def OutNorm.forward (act : Activations K) (norm : OutNorm K) (x : Tensor K) :
    Except SpectralError (Tensor K) := do
  let shape := x.shape
  let b :: t :: c :: _ := shape | throw .array
  let flat ← fitting (x.reshape [b, 1, t * c])
  let normed ← fitting ((flat.mapRows (t * c) act.layerNorm).reshape shape)
  let scaled ← fitting (normed.zipWith (· * ·) norm.weight)
  fitting (scaled.zipWith (· + ·) norm.bias)

def LayerScale.forward (scale : LayerScale K) (x : Tensor K) : Except SpectralError (Tensor K) :=
  fitting (x.zipWith (· * ·) scale.scale)

def Linear.forward (linear : Linear K) (x : Tensor K) : Except SpectralError (Tensor K) := do
  let y ← fitting (x.matmul linear.weight)
  fitting (y.zipWith (· + ·) linear.bias)

/-- `[B, T, C] -> [B, heads, T, C / heads]` -/
def splitHeads (heads : Nat) (x : Tensor K) : Except SpectralError (Tensor K) := do
  let b :: t :: c :: _ := x.shape | throw .array
  let apart ← fitting (x.reshape [b, t, heads, c / heads])
  fitting (apart.transposeAxes [0, 2, 1, 3])

def Attention.forward (attending : Attending K) (attention : Attention K) (q kv : Tensor K) :
    Except SpectralError (Tensor K) := do
  let qh ← splitHeads attention.heads (← attention.query.forward q)
  let kh ← splitHeads attention.heads (← attention.key.forward kv)
  let vh ← splitHeads attention.heads (← attention.value.forward kv)
  let (_, headDim) ← lastAxis qh
  let scale := 1 / attending.sqrt (headDim : K)
  let attended ← fitting (Tensor.attend attending.softmax scale qh kh vh)
  let [b, heads, t, depth] := attended.shape | throw .array
  let merged ← fitting (attended.transposeAxes [0, 2, 1, 3])
  let merged ← fitting (merged.reshape [b, t, heads * depth])
  attention.out.forward merged

def Layer.attended (act : Activations K) (attending : Attending K) (layer : Layer K)
    (x : Tensor K) (other : Option (Tensor K)) :
    Except SpectralError (Tensor K × LayerNorm K) :=
  match other, layer.norm3 with
  | some other, some norm3 => do
      -- Queries from this branch, keys and values from the other.
      let kv ← layer.norm2.forward act other
      let normed ← layer.norm1.forward act x
      return (← layer.attn.forward attending normed kv, norm3)
  | _, _ => do
      let normed ← layer.norm1.forward act x
      return (← layer.attn.forward attending normed normed, layer.norm2)

/-- `other` is absent for self-attention. Norm-first throughout. -/
def Layer.forward (act : Activations K) (attending : Attending K) (layer : Layer K)
    (x : Tensor K) (other : Option (Tensor K)) : Except SpectralError (Tensor K) := do
  let (attended, feedNorm) ← layer.attended act attending x other
  let x ← fitting (x.zipWith (· + ·) (← layer.gamma1.forward attended))
  let wide ← layer.linear1.forward (← feedNorm.forward act x)
  let fed ← layer.linear2.forward (gelu act wide)
  let x ← fitting (x.zipWith (· + ·) (← layer.gamma2.forward fed))
  layer.normOut.forward act x

def CrossTransformer.turn (act : Activations K) (attending : Attending K)
    (branches : Tensor K × Tensor K) (layer : Layer K × Layer K) :
    Except SpectralError (Tensor K × Tensor K) :=
  if layer.1.norm3.isNone then do
    let x ← layer.1.forward act attending branches.1 none
    let xt ← layer.2.forward act attending branches.2 none
    return (x, xt)
  else do
    -- The time branch reads the frequency branch's previous value.
    let previous := branches.1
    let x ← layer.1.forward act attending branches.1 (some branches.2)
    let xt ← layer.2.forward act attending branches.2 (some previous)
    return (x, xt)

def CrossTransformer.mixed (act : Activations K) (attending : Attending K)
    (transformer : CrossTransformer K) (branches : Tensor K × Tensor K) :
    Except SpectralError (Tensor K × Tensor K) :=
  (transformer.layers.zip transformer.layersT).foldlM (CrossTransformer.turn act attending) branches

/-- `[B, C, F, T] -> [B, T * F, C]`, the order the positions are flattened in too. -/
def CrossTransformer.flatten (b fr t1 c : Nat) (a : Tensor K) :
    Except SpectralError (Tensor K) := do
  let a ← fitting (a.transposeAxes [0, 3, 2, 1])
  fitting (a.reshape [b, t1 * fr, c])

/-- `x` is `[B, C, F, T1]` and `xt` is `[B, C, T2]`; both come back in the shape they went in. -/
def CrossTransformer.forward (act : Activations K) (attending : Attending K)
    (powers : Powers K) (transformer : CrossTransformer K) (x xt : Tensor K) :
    Except SpectralError (Tensor K × Tensor K) := do
  let [b, c, fr, t1] := x.shape | throw .array
  let pos2d ← sinEmbedding2d attending powers c fr t1
  let pos2d ← fitting (pos2d.broadcastTo [b, c, fr, t1])
  let pos2d ← CrossTransformer.flatten b fr t1 c pos2d
  let flat ← CrossTransformer.flatten b fr t1 c x
  let x ← fitting ((← transformer.normIn.forward act flat).zipWith (· + ·) pos2d)
  let _ :: _ :: t2 :: _ := xt.shape | throw .array
  let pos ← sinEmbedding attending powers t2 transformer.dim
  let pos ← fitting (pos.transposeAxes [1, 0, 2])
  let turned ← fitting (xt.swapAxes 1 2)
  let xt ← fitting ((← transformer.normInT.forward act turned).zipWith (· + ·) pos)
  let (x, xt) ← transformer.mixed act attending (x, xt)
  let x ← fitting (x.reshape [b, t1, fr, c])
  let x ← fitting (x.transposeAxes [0, 3, 2, 1])
  let xt ← fitting (xt.swapAxes 1 2)
  return (x, xt)

def OutNorm.run (act : Activations K) (norm : OutNorm K) (tokens : List (List K)) :
    List (List K) :=
  (List.range tokens.length).map fun n =>
    affine norm.weight.data norm.bias.data (slot norm.dim n (act.layerNorm tokens.flatten))

def LayerScale.apply (scale : LayerScale K) (values : List K) : List K :=
  List.zipWith (· * ·) values scale.scale.data

def Linear.plain (linear : Linear K) : Roformer.Linear K where
  chin := linear.chin
  chout := linear.chout
  weight := linear.weight
  weightShape := linear.weightShape
  bias := some linear.bias
  biasShape := by
    rintro b ⟨⟩
    exact linear.biasShape

def Linear.apply (linear : Linear K) (values : List K) : List K := linear.plain.apply values

def Attention.run (attending : Attending K) (attention : Attention K)
    (tokens others : List (List K)) : List (List K) :=
  let depth := attention.dim / attention.heads
  let part := fun (linear : Linear K) (h : Nat) (token : List K) =>
    slot depth h (linear.apply token)
  tokens.map fun token => attention.out.apply
    ((List.range attention.heads).map fun h =>
      attendRow attending.softmax (1 / attending.sqrt (depth : K))
        (others.map (part attention.key h)) (others.map (part attention.value h)) depth
        (part attention.query h token)).flatten

def Layer.fed (act : Activations K) (layer : Layer K) (feedNorm : LayerNorm K)
    (token : List K) : List K :=
  layer.linear2.apply ((layer.linear1.apply (feedNorm.apply act token)).map fun v =>
    v * (1 + act.erf (v / act.sqrt2)) / 2.0)

def Layer.close (act : Activations K) (layer : Layer K) (tokens attended : List (List K))
    (feedNorm : LayerNorm K) : List (List K) :=
  let tokens := List.zipWith (List.zipWith (· + ·)) tokens (attended.map layer.gamma1.apply)
  layer.normOut.run act (tokens.map fun token =>
    List.zipWith (· + ·) token (layer.gamma2.apply (layer.fed act feedNorm token)))

def Layer.run (act : Activations K) (attending : Attending K) (layer : Layer K)
    (tokens : List (List K)) (others : Option (List (List K))) : List (List K) :=
  let normed := tokens.map (layer.norm1.apply act)
  match others, layer.norm3 with
  | some others, some norm3 => layer.close act tokens
      (layer.attn.run attending normed (others.map (layer.norm2.apply act))) norm3
  | _, _ => layer.close act tokens (layer.attn.run attending normed normed) layer.norm2

theorem affine_length {weight bias values : List K} {d : Nat} (left : weight.length = d)
    (right : bias.length = d) (length : values.length = d) :
    (affine weight bias values).length = d := by
  rw [affine, List.length_zipWith, List.length_zipWith, left, right, length, min_self, min_self]

omit [Field K] in
theorem vector_length {x : Tensor K} {d : Nat} (shape : x.shape = [d]) : x.data.length = d := by
  rw [x.size, shape, List.prod_singleton]

theorem LayerNorm.forward_row (act : Activations K) (norm : LayerNorm K) {x : Tensor K}
    (lead : List Nat) (shape : x.shape = lead ++ [norm.dim]) :
    ∃ y, norm.forward act x = .ok y ∧ y.shape = lead ++ [norm.dim] ∧
      ∀ i, Within i lead → y.row i = norm.apply act (x.row i) := by
  obtain ⟨yShape, rows⟩ := Tensor.mapRows_row lead norm.dim shape norm.dim (norm.apply act)
    fun i _ => affine_length (vector_length norm.weightShape) (vector_length norm.biasShape)
      ((act.layerNorm_length _).trans (Tensor.row_length lead norm.dim shape i))
  exact ⟨_, if_pos (by rw [shape, List.getLast?_concat]), yShape, rows⟩

theorem LayerScale.forward_row (scale : LayerScale K) {x : Tensor K} (lead : List Nat)
    (shape : x.shape = lead ++ [scale.dim]) :
    ∃ y, scale.forward x = .ok y ∧ y.shape = lead ++ [scale.dim] ∧
      ∀ i, Within i lead → y.row i = scale.apply (x.row i) := by
  obtain ⟨y, scaled, yShape, rows⟩ := Tensor.row_zipWith_tail (· * ·) lead [] scale.dim
    (show x.shape = lead ++ [] ++ [scale.dim] by rw [shape, List.append_nil])
    (show scale.scale.shape = [] ++ [scale.dim] from scale.scaleShape)
  rw [List.append_nil] at yShape
  refine ⟨y, by rw [LayerScale.forward, scaled]; rfl, yShape, fun i outer => ?_⟩
  have here := rows i [] outer .nil
  rwa [List.append_nil, Tensor.row_vector scale.scaleShape] at here

theorem Linear.forward_row (linear : Linear K) {x : Tensor K} (lead : List Nat)
    (shape : x.shape = lead ++ [linear.chin]) :
    ∃ y, linear.forward x = .ok y ∧ y.shape = lead ++ [linear.chout] ∧
      ∀ i, Within i lead → y.row i = linear.apply (x.row i) :=
  linear.plain.forward_row lead shape

theorem OutNorm.forward_spec (act : Activations K) (norm : OutNorm K) {x : Tensor K} {B N : Nat}
    (shape : x.shape = [B, N, norm.dim]) :
    ∃ y, norm.forward act x = .ok y ∧ y.shape = [B, N, norm.dim] ∧
      ∀ b < B, y.seq [b] = norm.run act (x.seq [b]) := by
  obtain ⟨wide, merged, wideShape, wideRow⟩ := Tensor.mergeLast_spec [B] N norm.dim shape
  obtain ⟨flat, flattened, flatShape, flatEntry⟩ :=
    wide.reshape_spec [B, 1, N * norm.dim] (by rw [wideShape]; simp)
  rw [← Tensor.reshape_trans merged] at flattened
  have flatRow : ∀ b < B, flat.row [b, 0] = (x.seq [b]).flatten := by
    intro b item
    rw [← wideRow [b] (.cons item .nil), Tensor.row_eq [B] _ wideShape,
      Tensor.row_eq [B, 1] _ flatShape]
    apply List.map_congr_left
    intro t _
    apply flatEntry
    rw [wideShape]
    simp [position]
  obtain ⟨normedShape, normedRow⟩ := Tensor.mapRows_row [B, 1] (N * norm.dim) flatShape
    (N * norm.dim) act.layerNorm
    fun i _ => (act.layerNorm_length _).trans (Tensor.row_length [B, 1] _ flatShape i)
  obtain ⟨even, evened, evenShape, evenEntry⟩ :=
    (flat.mapRows (N * norm.dim) act.layerNorm).reshape_spec [B, N * norm.dim]
      (by rw [normedShape]; simp)
  obtain ⟨apart, parted, apartShape, apartRow⟩ :=
    Tensor.splitLast_spec [B] N norm.dim evenShape
  rw [← Tensor.reshape_trans evened] at parted
  have evenRow : ∀ b < B, even.row [b] = act.layerNorm (x.seq [b]).flatten := by
    intro b item
    rw [← flatRow b item, ← normedRow [b, 0] (.cons item (.cons Nat.one_pos .nil)),
      Tensor.row_eq [B] _ evenShape, Tensor.row_eq [B, 1] _ normedShape]
    apply List.map_congr_left
    intro t _
    apply evenEntry
    rw [normedShape]
    simp [position]
  obtain ⟨scaled, scaling, scaledShape, scaledRow⟩ := Tensor.row_zipWith_tail (· * ·) [B, N] []
    norm.dim (show apart.shape = [B, N] ++ [] ++ [norm.dim] from apartShape)
    (show norm.weight.shape = [] ++ [norm.dim] from norm.weightShape)
  obtain ⟨y, shifted, yShape, yRow⟩ := Tensor.row_zipWith_tail (· + ·) [B, N] [] norm.dim
    scaledShape (show norm.bias.shape = [] ++ [norm.dim] from norm.biasShape)
  refine ⟨y, ?_, yShape, fun b item => ?_⟩
  · have back : (flat.mapRows (N * norm.dim) act.layerNorm).reshape [B, N, norm.dim] =
        some apart := parted
    simp only [OutNorm.forward, shape, flattened, back, scaling, shifted, fitting, bind,
      Except.bind]
  · rw [OutNorm.run, Tensor.seq_length [B] N norm.dim shape]
    apply Tensor.seq_eq_map [B] N norm.dim yShape
    intro n token
    have here : Within [b, n] [B, N] := .cons item (.cons token .nil)
    have scaledHere := scaledRow [b, n] [] here .nil
    have yHere := yRow [b, n] [] here .nil
    rw [List.append_nil, Tensor.row_vector norm.weightShape] at scaledHere
    rw [List.append_nil, Tensor.row_vector norm.biasShape] at yHere
    rw [List.singleton_append, yHere, scaledHere, affine,
      show apart.row [b, n] = _ from apartRow [b] n (.cons item .nil) token, evenRow b item]

theorem splitHeads_spec {x : Tensor K} {B N H D : Nat} (heads : 0 < H)
    (shape : x.shape = [B, N, H * D]) :
    ∃ y, splitHeads H x = .ok y ∧ y.shape = [B, H, N, D] ∧
      ∀ b h, b < B → h < H → y.seq [b, h] = (x.seq [b]).map (slot D h) := by
  obtain ⟨apart, y, reshaped, transposed, yShape, seqs⟩ := Tensor.splitHeads_spec shape
  refine ⟨y, ?_, yShape, seqs⟩
  simp only [splitHeads, shape, Nat.mul_div_cancel_left D heads, reshaped, transposed, fitting,
    bind, Except.bind]

/-- Attention is what `run` says, of the sequence of each item to the other of that item. -/
theorem Attention.forward_spec (attending : Attending K) (attention : Attention K)
    {q kv : Tensor K} {B N M : Nat} (queries : q.shape = [B, N, attention.dim])
    (keys : kv.shape = [B, M, attention.dim]) (heads : 0 < attention.heads)
    (divides : attention.heads ∣ attention.dim) :
    ∃ y, attention.forward attending q kv = .ok y ∧ y.shape = [B, N, attention.dim] ∧
      ∀ b < B, y.seq [b] = attention.run attending (q.seq [b]) (kv.seq [b]) := by
  obtain ⟨D, dim⟩ := divides
  have depth : attention.dim / attention.heads = D := by
    rw [dim, Nat.mul_div_cancel_left D heads]
  obtain ⟨qs, querying, qsShape, qsRow⟩ :=
    attention.query.forward_row (x := q) [B, N] (by rw [queries, attention.queryFits.1]; rfl)
  obtain ⟨ks, keying, ksShape, ksRow⟩ :=
    attention.key.forward_row (x := kv) [B, M] (by rw [keys, attention.keyFits.1]; rfl)
  obtain ⟨vs, valuing, vsShape, vsRow⟩ :=
    attention.value.forward_row (x := kv) [B, M] (by rw [keys, attention.valueFits.1]; rfl)
  rw [attention.queryFits.2] at qsShape
  rw [attention.keyFits.2] at ksShape
  rw [attention.valueFits.2] at vsShape
  obtain ⟨qh, splitQ, qhShape, qhSeq⟩ :=
    splitHeads_spec heads (show qs.shape = [B, N, attention.heads * D] by rw [qsShape, dim]; rfl)
  obtain ⟨kh, splitK, khShape, khSeq⟩ :=
    splitHeads_spec heads (show ks.shape = [B, M, attention.heads * D] by rw [ksShape, dim]; rfl)
  obtain ⟨vh, splitV, vhShape, vhSeq⟩ :=
    splitHeads_spec heads (show vs.shape = [B, M, attention.heads * D] by rw [vsShape, dim]; rfl)
  obtain ⟨attended, attend, attendedShape, attendedSeq⟩ :=
    Tensor.attend_spec attending.softmax_length (1 / attending.sqrt (D : K))
      [B, attention.heads] qhShape khShape vhShape
  obtain ⟨turned, merged, turning, merging, mergedShape, mergedSeq⟩ :=
    Tensor.mergeHeads_spec (show attended.shape = [B, attention.heads, N, D] from attendedShape)
  obtain ⟨y, closing, yShape, yRow⟩ := attention.out.forward_row (x := merged) [B, N]
    (by rw [mergedShape, attention.outFits.1, dim]; rfl)
  rw [attention.outFits.2] at yShape
  refine ⟨y, ?_, yShape, fun b item => ?_⟩
  · have axis : lastAxis qh = .ok (3, D) :=
      lastAxis_eq (show qh.shape = [B, attention.heads, N] ++ [D] from qhShape)
    have rank : attended.shape = [B, attention.heads, N, D] := attendedShape
    simp only [Attention.forward, querying, keying, valuing, splitQ, splitK, splitV, axis, attend,
      rank, turning, merging, closing, fitting, bind, Except.bind]
  · have one : Within [b] [B] := .cons item .nil
    have qsSeq := Tensor.seq_of_rows [B] N _ _ queries qsShape qsRow one
    have ksSeq := Tensor.seq_of_rows [B] M _ _ keys ksShape ksRow one
    have vsSeq := Tensor.seq_of_rows [B] M _ _ keys vsShape vsRow one
    have ySeq := Tensor.seq_of_rows [B] N _ _ mergedShape yShape yRow one
    have length : (q.seq [b]).length = N := Tensor.seq_length [B] N _ queries [b]
    rw [ySeq, mergedSeq b item, Attention.run, depth]
    apply List.ext_getElem (by simp [length])
    intro n before _
    have token : n < N := by simpa using before
    simp only [List.getElem_map, List.getElem_range]
    refine congrArg (fun row => attention.out.apply (List.flatten row)) ?_
    apply List.map_congr_left
    intro h member
    have head := List.mem_range.mp member
    rw [attendedSeq [b, h] (.cons item (.cons head .nil)), qhSeq b h item head,
      khSeq b h item head, vhSeq b h item head, qsSeq, ksSeq, vsSeq,
      List.getD_eq_getElem _ _ (by simpa [length] using token)]
    simp only [List.getElem_map, List.map_map]
    rfl

theorem Layer.close_spec (act : Activations K) (layer : Layer K) {feedNorm : LayerNorm K}
    (norms : feedNorm.dim = layer.dim) {x attended : Tensor K} {B N : Nat}
    (shape : x.shape = [B, N, layer.dim]) (same : attended.shape = [B, N, layer.dim]) :
    ∃ scaled mid normed wide fed small grown y, layer.gamma1.forward attended = .ok scaled ∧
      x.zipWith (· + ·) scaled = some mid ∧ feedNorm.forward act mid = .ok normed ∧
      layer.linear1.forward normed = .ok wide ∧
      layer.linear2.forward (gelu act wide) = .ok fed ∧ layer.gamma2.forward fed = .ok small ∧
      mid.zipWith (· + ·) small = some grown ∧ layer.normOut.forward act grown = .ok y ∧
      y.shape = [B, N, layer.dim] ∧ ∀ b < B,
        y.seq [b] = layer.close act (x.seq [b]) (attended.seq [b]) feedNorm := by
  obtain ⟨scaled, scaling, scaledShape, scaledRow⟩ :=
    layer.gamma1.forward_row (x := attended) [B, N] (by rw [same, layer.gamma1Fits]; rfl)
  rw [layer.gamma1Fits] at scaledShape
  obtain ⟨mid, added, midShape, midSeq⟩ := Tensor.seq_zipWith (· + ·) [B] N _ shape
    (show scaled.shape = x.shape from scaledShape.trans shape.symm)
  obtain ⟨normed, norming, normedShape, normedRow⟩ :=
    feedNorm.forward_row act (x := mid) [B, N] (by rw [midShape, norms]; rfl)
  obtain ⟨wide, widening, wideShape, wideRow⟩ := layer.linear1.forward_row (x := normed) [B, N]
    (by rw [normedShape, norms, layer.linear1Fits])
  obtain ⟨fed, narrowing, fedShape, fedRow⟩ := layer.linear2.forward_row (x := gelu act wide) [B, N]
    (by rw [gelu_shape, wideShape, layer.linear2Fits.1])
  rw [layer.linear2Fits.2] at fedShape
  obtain ⟨small, scaling', smallShape, smallRow⟩ :=
    layer.gamma2.forward_row (x := fed) [B, N] (by rw [fedShape, layer.gamma2Fits])
  rw [layer.gamma2Fits] at smallShape
  obtain ⟨grown, added', grownShape, grownRow⟩ := Tensor.row_zipWith (· + ·) [B, N] _ midShape
    (show small.shape = mid.shape from smallShape.trans midShape.symm)
  obtain ⟨y, closing, yShape, ySeq⟩ := layer.normOut.forward_spec act (x := grown) (B := B) (N := N)
    (by rw [grownShape, layer.normOutFits]; rfl)
  rw [layer.normOutFits] at yShape
  refine ⟨scaled, mid, normed, wide, fed, small, grown, y, scaling, added, norming, widening,
    narrowing, scaling', added', closing, yShape, fun b item => ?_⟩
  have one : Within [b] [B] := .cons item .nil
  have scaledSeq := Tensor.seq_of_rows [B] N _ _ same scaledShape scaledRow one
  have grownSeq : grown.seq [b] = (mid.seq [b]).map fun token =>
      List.zipWith (· + ·) token (layer.gamma2.apply (layer.fed act feedNorm token)) := by
    apply Tensor.seq_of_rows [B] N _ _ midShape grownShape ?_ one
    intro i within
    have bent : (gelu act wide).row i = (wide.row i).map _ :=
      Tensor.row_map _ [B, N] _ wideShape within
    rw [grownRow i within, smallRow i within, fedRow i within, bent, wideRow i within,
      normedRow i within]
    rfl
  rw [ySeq b item, grownSeq, midSeq [b] one, scaledSeq, Layer.close]

/-- A layer is what `run` says, on the sequence of each item. -/
theorem Layer.forward_spec (act : Activations K) (attending : Attending K) (layer : Layer K)
    {x : Tensor K} {B N : Nat} (shape : x.shape = [B, N, layer.dim])
    (heads : 0 < layer.attn.heads) (divides : layer.attn.heads ∣ layer.dim)
    {other : Option (Tensor K)} {M : Nat}
    (others : ∀ o, other = some o → o.shape = [B, M, layer.dim]) :
    ∃ y, layer.forward act attending x other = .ok y ∧ y.shape = [B, N, layer.dim] ∧
      ∀ b < B, y.seq [b] = layer.run act attending (x.seq [b]) (other.map fun o => o.seq [b]) := by
  obtain ⟨normed, norming, normedShape, normedRow⟩ :=
    layer.norm1.forward_row act (x := x) [B, N] (by rw [shape, layer.norm1Fits]; rfl)
  rw [layer.norm1Fits] at normedShape
  have normedSeq : ∀ b < B, normed.seq [b] = (x.seq [b]).map (layer.norm1.apply act) :=
    fun b item => Tensor.seq_of_rows [B] N _ _ shape normedShape normedRow (.cons item .nil)
  have queries : normed.shape = [B, N, layer.attn.dim] := by rw [layer.attnFits]; exact normedShape
  have divides' : layer.attn.heads ∣ layer.attn.dim := by rwa [layer.attnFits]
  -- Within the branch, whether there is no other or no norm for it.
  have within_branch : (∀ o norm, other = some o → layer.norm3 ≠ some norm) →
      ∃ y, layer.forward act attending x other = .ok y ∧ y.shape = [B, N, layer.dim] ∧
        ∀ b < B, y.seq [b] = layer.run act attending (x.seq [b])
          (other.map fun o => o.seq [b]) := by
    intro apart
    obtain ⟨attended, attend, attendedShape, attendedSeq⟩ :=
      layer.attn.forward_spec attending queries queries heads divides'
    rw [layer.attnFits] at attendedShape
    obtain ⟨scaled, mid, normed', wide, fed, small, grown, y, scaling, added, norming', widening,
      narrowing, scaling', added', closing, yShape, ySeq⟩ :=
      layer.close_spec act layer.norm2Fits shape attendedShape
    have taken : layer.attended act attending x other = .ok (attended, layer.norm2) := by
      cases other with
      | none => simp only [Layer.attended, norming, attend, bind, Except.bind]; rfl
      | some o =>
          cases norm3 : layer.norm3 with
          | none => simp only [Layer.attended, norm3, norming, attend, bind, Except.bind]; rfl
          | some norm => exact absurd norm3 (apart o norm rfl)
    refine ⟨y, ?_, yShape, fun b item => ?_⟩
    · simp only [Layer.forward, taken, scaling, added, norming', widening, narrowing, scaling',
        added', closing, fitting, bind, Except.bind]
    · rw [ySeq b item, attendedSeq b item, normedSeq b item]
      cases other with
      | none => rfl
      | some o =>
          cases norm3 : layer.norm3 with
          | none => simp only [Layer.run, norm3, Option.map_some]
          | some norm => exact absurd norm3 (apart o norm rfl)
  cases other with
  | none => exact within_branch fun o norm is => by cases is
  | some other =>
      cases norm3 : layer.norm3 with
      | none => exact within_branch fun o norm _ is => by rw [norm3] at is; cases is
      | some norm =>
          have keyed := others other rfl
          obtain ⟨kv, reading, kvShape, kvRow⟩ :=
            layer.norm2.forward_row act (x := other) [B, M] (by rw [keyed, layer.norm2Fits]; rfl)
          rw [layer.norm2Fits] at kvShape
          have kvSeq : ∀ b < B, kv.seq [b] = (other.seq [b]).map (layer.norm2.apply act) :=
            fun b item => Tensor.seq_of_rows [B] M _ _ keyed kvShape kvRow (.cons item .nil)
          obtain ⟨attended, attend, attendedShape, attendedSeq⟩ :=
            layer.attn.forward_spec attending queries
              (show kv.shape = [B, M, layer.attn.dim] by rw [layer.attnFits]; exact kvShape) heads
              divides'
          rw [layer.attnFits] at attendedShape
          obtain ⟨scaled, mid, normed', wide, fed, small, grown, y, scaling, added, norming',
            widening, narrowing, scaling', added', closing, yShape, ySeq⟩ :=
            layer.close_spec act (layer.norm3Fits norm norm3) shape attendedShape
          refine ⟨y, ?_, yShape, fun b item => ?_⟩
          · have taken : layer.attended act attending x (some other) = .ok (attended, norm) := by
              simp only [Layer.attended, norm3, reading, norming, attend, bind, Except.bind]
              rfl
            simp only [Layer.forward, taken, scaling, added, norming', widening, narrowing,
              scaling', added', closing, fitting, bind, Except.bind]
          · simp only [Layer.run, norm3, Option.map_some]
            rw [ySeq b item, attendedSeq b item, normedSeq b item, kvSeq b item]

def CrossTransformer.turnRun (act : Activations K) (attending : Attending K)
    (branches : List (List K) × List (List K)) (layer : Layer K × Layer K) :
    List (List K) × List (List K) :=
  if layer.1.norm3.isNone then
    (layer.1.run act attending branches.1 none, layer.2.run act attending branches.2 none)
  else (layer.1.run act attending branches.1 (some branches.2),
    layer.2.run act attending branches.2 (some branches.1))

def CrossTransformer.mixedRun (act : Activations K) (attending : Attending K)
    (transformer : CrossTransformer K) (branches : List (List K) × List (List K)) :
    List (List K) × List (List K) :=
  (transformer.layers.zip transformer.layersT).foldl (CrossTransformer.turnRun act attending)
    branches

def CrossTransformer.run (act : Activations K) (attending : Attending K) (powers : Powers K)
    (transformer : CrossTransformer K) (fr : Nat) (cells instants : List (List K)) :
    List (List K) × List (List K) :=
  transformer.mixedRun act attending
    ((cells.map (transformer.normIn.apply act)).mapIdx fun p token =>
        List.zipWith (· + ·) token
          (cellPosition attending powers transformer.dim (p % fr) (p / fr)),
      (instants.map (transformer.normInT.apply act)).mapIdx fun t token =>
        List.zipWith (· + ·) token (instantPosition attending powers transformer.dim t))

/-- The cells of an item of a `[B, C, F, T]`, instant by instant. -/
def cells (x : Tensor K) (b : Nat) : List (List K) :=
  (List.range (x.shape.getD 3 0 * x.shape.getD 2 0)).map fun p =>
    (List.range (x.shape.getD 1 0)).map fun c =>
      x.get [b, c, p % x.shape.getD 2 0, p / x.shape.getD 2 0]

def instants (x : Tensor K) (b : Nat) : List (List K) :=
  (List.range (x.shape.getD 2 0)).map fun t =>
    (List.range (x.shape.getD 1 0)).map fun c => x.get [b, c, t]

theorem CrossTransformer.turn_spec (act : Activations K) (attending : Attending K)
    {layer : Layer K × Layer K} {dim heads : Nat} (some_heads : 0 < heads) (divides : heads ∣ dim)
    (fits : layer.1.dim = dim ∧ layer.1.attn.heads = heads)
    (fitsT : layer.2.dim = dim ∧ layer.2.attn.heads = heads) {x xt : Tensor K} {B N M : Nat}
    (shape : x.shape = [B, N, dim]) (shapeT : xt.shape = [B, M, dim]) :
    ∃ y yt, CrossTransformer.turn act attending (x, xt) layer = .ok (y, yt) ∧
      y.shape = [B, N, dim] ∧ yt.shape = [B, M, dim] ∧ ∀ b < B, (y.seq [b], yt.seq [b]) =
        CrossTransformer.turnRun act attending (x.seq [b], xt.seq [b]) layer := by
  obtain ⟨layer, layerT⟩ := layer
  obtain ⟨rfl, headsIs⟩ := fits
  obtain ⟨dimT, headsT⟩ := fitsT
  have own : 0 < layer.attn.heads ∧ layer.attn.heads ∣ layer.dim := by
    rw [headsIs]
    exact ⟨some_heads, divides⟩
  have ownT : 0 < layerT.attn.heads ∧ layerT.attn.heads ∣ layerT.dim := by
    rw [headsT, dimT]
    exact ⟨some_heads, divides⟩
  have run : ∀ (other : Option (Tensor K)) (M' : Nat),
      (∀ o, other = some o → o.shape = [B, M', layer.dim]) →
      ∃ y, layer.forward act attending x other = .ok y ∧ y.shape = [B, N, layer.dim] ∧
        ∀ b < B, y.seq [b] = layer.run act attending (x.seq [b])
          (other.map fun o => o.seq [b]) :=
    fun _ _ others => layer.forward_spec act attending shape own.1 own.2 others
  have runT : ∀ (other : Option (Tensor K)) (M' : Nat),
      (∀ o, other = some o → o.shape = [B, M', layer.dim]) →
      ∃ y, layerT.forward act attending xt other = .ok y ∧ y.shape = [B, M, layer.dim] ∧
        ∀ b < B, y.seq [b] = layerT.run act attending (xt.seq [b])
          (other.map fun o => o.seq [b]) := by
    intro other M' others
    rw [← dimT] at others shapeT ⊢
    exact layerT.forward_spec act attending shapeT ownT.1 ownT.2 others
  cases crosses : layer.norm3.isNone with
  | true =>
      obtain ⟨y, forward, yShape, ySeq⟩ := run none 0 (by rintro o ⟨⟩)
      obtain ⟨yt, forwardT, ytShape, ytSeq⟩ := runT none 0 (by rintro o ⟨⟩)
      refine ⟨y, yt, ?_, yShape, ytShape, fun b item => ?_⟩
      · simp only [CrossTransformer.turn, crosses, if_true, forward, forwardT, bind, Except.bind]
        rfl
      · simp only [CrossTransformer.turnRun, crosses, if_true, ySeq b item, ytSeq b item,
          Option.map_none]
  | false =>
      obtain ⟨y, forward, yShape, ySeq⟩ := run (some xt) M (by rintro o ⟨⟩; exact shapeT)
      obtain ⟨yt, forwardT, ytShape, ytSeq⟩ :=
        runT (some x) N (by rintro o ⟨⟩; exact shape)
      refine ⟨y, yt, ?_, yShape, ytShape, fun b item => ?_⟩
      · simp only [CrossTransformer.turn, crosses, Bool.false_eq_true, if_false, forward, forwardT,
          bind, Except.bind]
        rfl
      · simp only [CrossTransformer.turnRun, crosses, Bool.false_eq_true, if_false, ySeq b item,
          ytSeq b item, Option.map_some]

theorem CrossTransformer.mixed_spec (act : Activations K) (attending : Attending K)
    (transformer : CrossTransformer K) (heads : 0 < transformer.heads)
    (divides : transformer.heads ∣ transformer.dim) {x xt : Tensor K} {B N M : Nat}
    (shape : x.shape = [B, N, transformer.dim]) (shapeT : xt.shape = [B, M, transformer.dim]) :
    ∃ y yt, transformer.mixed act attending (x, xt) = .ok (y, yt) ∧
      y.shape = [B, N, transformer.dim] ∧ yt.shape = [B, M, transformer.dim] ∧
      ∀ b < B, (y.seq [b], yt.seq [b]) =
        transformer.mixedRun act attending (x.seq [b], xt.seq [b]) := by
  have fits : ∀ pair ∈ transformer.layers.zip transformer.layersT,
      (pair.1.dim = transformer.dim ∧ pair.1.attn.heads = transformer.heads) ∧
        pair.2.dim = transformer.dim ∧ pair.2.attn.heads = transformer.heads :=
    fun pair member => ⟨transformer.layersFit _ (List.of_mem_zip member).1,
      transformer.layersTFit _ (List.of_mem_zip member).2⟩
  unfold CrossTransformer.mixed CrossTransformer.mixedRun
  generalize transformer.layers.zip transformer.layersT = pairs at fits
  -- By induction on the pairs of layers, each of which keeps both shapes for the next.
  induction pairs generalizing x xt with
  | nil => exact ⟨x, xt, rfl, shape, shapeT, fun _ _ => rfl⟩
  | cons pair pairs ih =>
      obtain ⟨own, ownT⟩ := fits pair List.mem_cons_self
      obtain ⟨mid, midT, turned, midShape, midShapeT, midSeq⟩ :=
        CrossTransformer.turn_spec act attending heads divides own ownT shape shapeT
      obtain ⟨y, yt, rest, yShape, ytShape, ySeq⟩ :=
        ih midShape midShapeT fun later member => fits later (List.mem_cons_of_mem _ member)
      refine ⟨y, yt, ?_, yShape, ytShape, fun b item => ?_⟩
      · rw [List.foldlM_cons, turned]
        exact rest
      · rw [ySeq b item, midSeq b item, List.foldl_cons]

theorem reversed_spec {a : Tensor K} {B C F T : Nat} (shape : a.shape = [B, C, F, T]) :
    ∃ y, a.transposeAxes [0, 3, 2, 1] = some y ∧ y.shape = [B, T, F, C] ∧
      ∀ b c f t, b < B → c < C → f < F → t < T → y.get [b, t, f, c] = a.get [b, c, f, t] := by
  have rank : a.shape.length = 4 := by rw [shape]; rfl
  have order : [0, 3, 2, 1].Perm (List.range a.shape.length) := by
    rw [rank]
    decide
  obtain ⟨y, transposed, yShape, entry⟩ := Tensor.transposeAxes_spec order
  rw [shape] at yShape entry
  refine ⟨y, transposed, yShape, fun b c f t item channel bin instant => ?_⟩
  exact entry [b, t, f, c] (.cons item (.cons instant (.cons bin (.cons channel .nil))))

theorem cells_eq {a : Tensor K} {B C F T : Nat} (shape : a.shape = [B, C, F, T]) (b : Nat) :
    cells a b = (List.range (T * F)).map fun p =>
      (List.range C).map fun c => a.get [b, c, p % F, p / F] := by
  rw [cells, shape]
  rfl

theorem instants_eq {a : Tensor K} {B C T : Nat} (shape : a.shape = [B, C, T]) (b : Nat) :
    instants a b = (List.range T).map fun t => (List.range C).map fun c => a.get [b, c, t] := by
  rw [instants, shape]
  rfl

theorem cell_place {F T p : Nat} (below : p < T * F) : p % F < F ∧ p / F < T := by
  have bins : 0 < F := by
    apply Nat.pos_of_ne_zero
    rintro rfl
    simp at below
  exact ⟨Nat.mod_lt _ bins, Nat.div_lt_of_lt_mul (by rwa [Nat.mul_comm])⟩

theorem CrossTransformer.flatten_spec {a : Tensor K} {B C F T : Nat}
    (shape : a.shape = [B, C, F, T]) :
    ∃ y, CrossTransformer.flatten B F T C a = .ok y ∧ y.shape = [B, T * F, C] ∧
      ∀ b < B, y.seq [b] = cells a b := by
  obtain ⟨turned, turning, turnedShape, turnedEntry⟩ := reversed_spec shape
  obtain ⟨y, merged, yShape, yEntry⟩ := Tensor.mergeAxes_spec [B] T F [C] turnedShape
  refine ⟨y, ?_, yShape, fun b item => ?_⟩
  · have merging : turned.reshape [B, T * F, C] = some y := merged
    simp only [CrossTransformer.flatten, turning, merging, fitting, bind, Except.bind]
  · rw [cells_eq shape]
    apply Tensor.seq_eq_map [B] (T * F) C yShape
    intro p below
    obtain ⟨bin, instant⟩ := cell_place below
    rw [List.singleton_append, Tensor.row_eq [B, T * F] C yShape]
    apply List.map_congr_left
    intro c member
    have entry := yEntry [b] (p / F) (p % F) [c] rfl
    rw [Nat.div_add_mod' p F] at entry
    exact entry.trans (turnedEntry b c _ _ item (List.mem_range.mp member) bin instant)

theorem unflatten_spec {a : Tensor K} {B C F T : Nat} (shape : a.shape = [B, T * F, C]) :
    ∃ apart y, a.reshape [B, T, F, C] = some apart ∧ apart.transposeAxes [0, 3, 2, 1] = some y ∧
      y.shape = [B, C, F, T] ∧ ∀ b < B, cells y b = a.seq [b] := by
  obtain ⟨apart, parted, apartShape, apartEntry⟩ := Tensor.splitAxis_spec [B] T F [C] shape
  obtain ⟨y, turning, yShape, yEntry⟩ :=
    reversed_spec (show apart.shape = [B, T, F, C] from apartShape)
  refine ⟨apart, y, parted, turning, yShape, fun b item => ?_⟩
  rw [cells_eq yShape]
  symm
  apply Tensor.seq_eq_map [B] (T * F) C shape
  intro p below
  obtain ⟨bin, instant⟩ := cell_place below
  rw [List.singleton_append, Tensor.row_eq [B, T * F] C shape]
  apply List.map_congr_left
  intro c member
  have entry := apartEntry [b] (p / F) (p % F) [c] rfl
  rw [Nat.div_add_mod' p F] at entry
  exact entry.symm.trans
    (yEntry b _ _ _ item instant bin (List.mem_range.mp member)).symm

theorem swapped_spec {a : Tensor K} {B m n : Nat} (shape : a.shape = [B, m, n]) :
    ∃ y, a.swapAxes 1 2 = some y ∧ y.shape = [B, n, m] ∧
      ∀ b i j, b < B → i < n → j < m → y.get [b, i, j] = a.get [b, j, i] := by
  obtain ⟨y, swapped, yShape, entry⟩ := Tensor.swapLast_spec [B] m n shape
  exact ⟨y, swapped, yShape, fun b i j item row column => entry [b] i j (.cons item .nil) row
    column⟩

theorem cells_placed (attending : Attending K) (powers : Powers K) {C : Nat} (four : 4 ∣ C)
    {normed : Tensor K} {B F T : Nat} (shape : normed.shape = [B, T * F, C]) :
    ∃ pos2d spread flat y, sinEmbedding2d attending powers C F T = .ok pos2d ∧
      pos2d.broadcastTo [B, C, F, T] = some spread ∧
      CrossTransformer.flatten B F T C spread = .ok flat ∧
      normed.zipWith (· + ·) flat = some y ∧ y.shape = [B, T * F, C] ∧
      ∀ b < B, y.seq [b] = (normed.seq [b]).mapIdx fun p token =>
        List.zipWith (· + ·) token (cellPosition attending powers C (p % F) (p / F)) := by
  obtain ⟨pos2d, embedded, posShape, posEntry⟩ := sinEmbedding2d_spec attending powers four F T
  have fits : Tensor.broadcast pos2d.shape [B, C, F, T] = some [B, C, F, T] := by
    rw [posShape]
    simp [Tensor.broadcast, Tensor.stretch_one_left, Tensor.stretch_same, Tensor.stretch_nil]
  obtain ⟨spread, spreading, spreadShape, spreadEntry⟩ := Tensor.broadcastTo_spec fits
  obtain ⟨flat, flattening, flatShape, flatSeq⟩ := CrossTransformer.flatten_spec spreadShape
  obtain ⟨y, added, yShape, yRow⟩ := Tensor.row_zipWith (· + ·) [B, T * F] C shape
    (show flat.shape = normed.shape from flatShape.trans shape.symm)
  refine ⟨pos2d, spread, flat, y, embedded, spreading, flattening, added, yShape,
    fun b item => ?_⟩
  apply Tensor.seq_of_places [B] (T * F) C C shape yShape
  intro p below
  obtain ⟨bin, instant⟩ := cell_place below
  have here : flat.row [b, p] = cellPosition attending powers C (p % F) (p / F) := by
    have length := cellPosition_length attending powers (Dvd.dvd.trans (by decide) four) (p % F)
      (p / F)
    have read := Tensor.seq_getD [B] (T * F) C flatShape [b] below
    rw [List.singleton_append] at read
    rw [← read, flatSeq b item, cells_eq spreadShape,
      List.getD_eq_getElem _ _ (by simpa using below), List.getElem_map, List.getElem_range]
    apply List.ext_getElem (by simp [length])
    intro c before after
    have channel : c < C := by simpa using before
    have aligned : Tensor.align [1, C, F, T] [b, c, p % F, p / F] = [0, c, p % F, p / F] := by
      simp only [Tensor.align, List.length_cons, List.length_nil, Nat.sub_self, List.drop_zero,
        List.zipWith_cons_cons, List.zipWith_nil_left, if_true, Tensor.align_here channel,
        Tensor.align_here bin, Tensor.align_here instant]
    rw [List.getElem_map, List.getElem_range,
      spreadEntry _ (.cons item (.cons channel (.cons bin (.cons instant .nil)))), posShape,
      aligned, posEntry c _ _ channel bin instant, List.getD_eq_getElem _ _ after]
  exact (yRow [b, p] (.cons item (.cons below .nil))).trans
    (congrArg (List.zipWith (· + ·) _) here)

theorem instants_placed (attending : Attending K) (powers : Powers K) {C : Nat} (even : 2 ∣ C)
    {normed : Tensor K} {B T : Nat} (shape : normed.shape = [B, T, C]) :
    ∃ pos turned y, sinEmbedding attending powers T C = .ok pos ∧
      pos.transposeAxes [1, 0, 2] = some turned ∧ normed.zipWith (· + ·) turned = some y ∧
      y.shape = [B, T, C] ∧ ∀ b < B, y.seq [b] = (normed.seq [b]).mapIdx fun t token =>
        List.zipWith (· + ·) token (instantPosition attending powers C t) := by
  obtain ⟨pos, embedded, posShape, posEntry⟩ := sinEmbedding_spec attending powers even T
  have rank : pos.shape.length = 3 := by rw [posShape]; rfl
  have order : [1, 0, 2].Perm (List.range pos.shape.length) := by
    rw [rank]
    decide
  obtain ⟨turned, transposed, turnedShape, turnedEntry⟩ := Tensor.transposeAxes_spec order
  rw [posShape] at turnedShape turnedEntry
  have turnedShape : turned.shape = [1, T, C] := turnedShape
  have fits : Tensor.broadcast normed.shape turned.shape = some [B, T, C] := by
    rw [shape, turnedShape]
    simp [Tensor.broadcast, Tensor.stretch_one_right, Tensor.stretch_same, Tensor.stretch_nil]
  obtain ⟨y, added, yShape, yEntry⟩ := Tensor.zipWith_spec (· + ·) fits
  refine ⟨pos, turned, y, embedded, transposed, added, yShape, fun b item => ?_⟩
  apply Tensor.seq_of_places [B] T C C shape yShape
  intro t instant
  have length := instantPosition_length attending powers even t
  have width : (normed.row ([b] ++ [t])).length = C := Tensor.row_length [B, T] C shape _
  apply Tensor.row_eq_of [B, T] C yShape (by rw [List.length_zipWith, width, length, min_self])
  intro c channel
  have aligned : Tensor.align [1, T, C] [b, t, c] = [0, t, c] := by
    simp only [Tensor.align, List.length_cons, List.length_nil, Nat.sub_self, List.drop_zero,
      List.zipWith_cons_cons, List.zipWith_nil_left, if_true, Tensor.align_here instant,
      Tensor.align_here channel]
  have inside : Within [b, t, c] [B, T, C] := .cons item (.cons instant (.cons channel .nil))
  have entry := yEntry [b, t, c] inside
  rw [shape, Tensor.align_self inside, turnedShape, aligned,
    turnedEntry [0, t, c] (.cons Nat.one_pos (.cons instant (.cons channel .nil)))] at entry
  refine (show y.get ([b] ++ [t] ++ [c]) = _ from entry).trans ?_
  rw [List.getD_eq_getElem _ _ (by rwa [List.length_zipWith, width, length, min_self]),
    List.getElem_zipWith, ← List.getD_eq_getElem _ 0 (show c < (normed.row ([b] ++ [t])).length by
      rwa [width]), ← List.getD_eq_getElem _ 0 (show c < (instantPosition attending powers C
      t).length by rwa [length]), Tensor.row_getD [B, T] C shape _ channel,
    ← posEntry c t channel instant]
  rfl

/-- The transformer is what `run` says, on the cells and the instants of each item: every cell is
told where in the plane it stands and every instant when it is, the branches read each other's
value from before the layer, and both come back in the shape they went in. -/
theorem CrossTransformer.forward_spec (act : Activations K) (attending : Attending K)
    (powers : Powers K) (transformer : CrossTransformer K) (heads : 0 < transformer.heads)
    (divides : transformer.heads ∣ transformer.dim) (four : 4 ∣ transformer.dim)
    {x xt : Tensor K} {B F T1 T2 : Nat} (shape : x.shape = [B, transformer.dim, F, T1])
    (shapeT : xt.shape = [B, transformer.dim, T2]) :
    ∃ y yt, transformer.forward act attending powers x xt = .ok (y, yt) ∧
      y.shape = [B, transformer.dim, F, T1] ∧ yt.shape = [B, transformer.dim, T2] ∧
      ∀ b < B, (cells y b, instants yt b) =
        transformer.run act attending powers F (cells x b) (instants xt b) := by
  obtain ⟨flat, flattening, flatShape, flatSeq⟩ := CrossTransformer.flatten_spec shape
  obtain ⟨normed, norming, normedShape, normedRow⟩ :=
    transformer.normIn.forward_row act (x := flat) [B, T1 * F]
      (by rw [flatShape, transformer.normInFits]; rfl)
  rw [transformer.normInFits] at normedShape
  obtain ⟨pos2d, spread, flatPos, placed, embedded, spreading, flattening', adding, placedShape,
    placedSeq⟩ := cells_placed attending powers four (show normed.shape = _ from normedShape)
  obtain ⟨turned, turning, turnedShape, turnedEntry⟩ := swapped_spec shapeT
  obtain ⟨normedT, normingT, normedTShape, normedTRow⟩ :=
    transformer.normInT.forward_row act (x := turned) [B, T2]
      (by rw [turnedShape, transformer.normInTFits]; rfl)
  rw [transformer.normInTFits] at normedTShape
  obtain ⟨pos, posTurned, placedT, embeddedT, posTurning, addingT, placedTShape, placedTSeq⟩ :=
    instants_placed attending powers (Dvd.dvd.trans (by decide) four)
      (show normedT.shape = _ from normedTShape)
  obtain ⟨mixed, mixedT, mixing, mixedShape, mixedTShape, mixedSeq⟩ :=
    transformer.mixed_spec act attending heads divides placedShape placedTShape
  obtain ⟨apart, y, parting, back, yShape, yCells⟩ := unflatten_spec mixedShape
  obtain ⟨yt, backT, ytShape, ytEntry⟩ := swapped_spec mixedTShape
  refine ⟨y, yt, ?_, yShape, ytShape, fun b item => ?_⟩
  · simp only [CrossTransformer.forward, shape, shapeT, embedded, spreading, flattening',
      flattening, norming, adding, embeddedT, posTurning, turning, normingT, addingT, mixing,
      parting, back, backT, fitting, bind, Except.bind]
    rfl
  · have one : Within [b] [B] := .cons item .nil
    have turnedSeq : turned.seq [b] = instants xt b := by
      rw [instants_eq shapeT]
      apply Tensor.seq_eq_map [B] T2 _ turnedShape
      intro t instant
      rw [List.singleton_append, Tensor.row_eq [B, T2] _ turnedShape]
      apply List.map_congr_left
      intro c member
      exact turnedEntry b t c item instant (List.mem_range.mp member)
    have ytInstants : instants yt b = mixedT.seq [b] := by
      rw [instants_eq ytShape]
      symm
      apply Tensor.seq_eq_map [B] T2 _ mixedTShape
      intro t instant
      rw [List.singleton_append, Tensor.row_eq [B, T2] _ mixedTShape]
      apply List.map_congr_left
      intro c member
      exact (ytEntry b c t item (List.mem_range.mp member) instant).symm
    have normedSeq := Tensor.seq_of_rows [B] (T1 * F) _ _ flatShape normedShape normedRow one
    have normedTSeq := Tensor.seq_of_rows [B] T2 _ _ turnedShape normedTShape normedTRow one
    rw [yCells b item, ytInstants, mixedSeq b item, placedSeq b item, placedTSeq b item, normedSeq,
      normedTSeq, flatSeq b item, turnedSeq, CrossTransformer.run]

end

noncomputable def fourNorm : LayerNorm ℝ where
  dim := 4
  weight := .build [4] fun _ => 1
  weightShape := rfl
  bias := .build [4] fun _ => 0
  biasShape := rfl

noncomputable def fourScale : LayerScale ℝ where
  dim := 4
  scale := .build [4] fun _ => 0.5
  scaleShape := rfl

noncomputable def fourLinear (weight : ℝ) : Linear ℝ where
  chin := 4
  chout := 4
  weight := .build [4, 4] fun _ => weight
  weightShape := rfl
  bias := .build [4] fun _ => 1
  biasShape := rfl

noncomputable def fourLayer (weight : ℝ) (norm3 : Option (LayerNorm ℝ))
    (fits : ∀ norm, norm3 = some norm → norm.dim = 4) : Layer ℝ where
  dim := 4
  attn := ⟨4, fourLinear weight, fourLinear 1, fourLinear 1, fourLinear 1, 2, ⟨rfl, rfl⟩,
    ⟨rfl, rfl⟩, ⟨rfl, rfl⟩, ⟨rfl, rfl⟩⟩
  norm1 := fourNorm
  norm2 := fourNorm
  norm3 := norm3
  linear1 := fourLinear 1
  linear2 := fourLinear weight
  gamma1 := fourScale
  gamma2 := fourScale
  normOut := ⟨4, .build [4] fun _ => 1, rfl, .build [4] fun _ => 0, rfl⟩
  attnFits := rfl
  norm1Fits := rfl
  norm2Fits := rfl
  norm3Fits := fits
  linear1Fits := rfl
  linear2Fits := ⟨rfl, rfl⟩
  gamma1Fits := rfl
  gamma2Fits := rfl
  normOutFits := rfl

noncomputable def withinLayer (weight : ℝ) : Layer ℝ := fourLayer weight none (by rintro _ ⟨⟩)

noncomputable def acrossLayer (weight : ℝ) : Layer ℝ :=
  fourLayer weight (some fourNorm) (by rintro _ ⟨⟩; rfl)

noncomputable def fourTransformer : CrossTransformer ℝ where
  normIn := fourNorm
  normInT := fourNorm
  layers := [withinLayer 1, acrossLayer 1.5]
  layersT := [withinLayer 0.5, acrossLayer 2.5]
  dim := 4
  heads := 2
  normInFits := rfl
  normInTFits := rfl
  alternate := .cons rfl (.cons rfl .nil)
  layersFit := by
    intro layer member
    rcases List.mem_pair.mp member with rfl | rfl <;> exact ⟨rfl, rfl⟩
  layersTFit := by
    intro layer member
    rcases List.mem_pair.mp member with rfl | rfl <;> exact ⟨rfl, rfl⟩

example :
    ∃ y yt, fourTransformer.forward Roformer.realActivations Roformer.realAttending realPowers
        ⟨[1, 4, 1, 2], [1, 2, 3, 4, 5, 6, 7, 8], rfl⟩ ⟨[1, 4, 1], [1, -1, 2, -2], rfl⟩ =
          .ok (y, yt) ∧
      y.shape = [1, 4, 1, 2] ∧ yt.shape = [1, 4, 1] ∧ (cells y 0, instants yt 0) =
        fourTransformer.run Roformer.realActivations Roformer.realAttending realPowers 1
          [[1, 3, 5, 7], [2, 4, 6, 8]] [[1, -1, 2, -2]] := by
  obtain ⟨y, yt, forward, yShape, ytShape, ran⟩ := fourTransformer.forward_spec
    Roformer.realActivations Roformer.realAttending realPowers (show 0 < 2 by decide)
    (show 2 ∣ 4 by decide) (show 4 ∣ 4 by decide)
    (x := ⟨[1, 4, 1, 2], [1, 2, 3, 4, 5, 6, 7, 8], rfl⟩) (B := 1) (F := 1)
    rfl (show Tensor.shape ⟨[1, 4, 1], [1, -1, 2, -2], rfl⟩ = _ from rfl)
  exact ⟨y, yt, forward, yShape, ytShape, ran 0 (by decide)⟩

section

variable {K : Type} [Field K]

def CrossTransformer.exchange (transformer : CrossTransformer K) : CrossTransformer K where
  normIn := transformer.normInT
  normInT := transformer.normIn
  layers := transformer.layersT
  layersT := transformer.layers
  dim := transformer.dim
  heads := transformer.heads
  normInFits := transformer.normInTFits
  normInTFits := transformer.normInFits
  alternate := transformer.alternate.flip.imp fun _ _ same => same.symm
  layersFit := transformer.layersTFit
  layersTFit := transformer.layersFit

theorem CrossTransformer.turnRun_exchange (act : Activations K) (attending : Attending K)
    {layer layerT : Layer K} (same : layer.norm3.isSome = layerT.norm3.isSome)
    (tokens tokensT : List (List K)) :
    CrossTransformer.turnRun act attending (tokensT, tokens) (layerT, layer) =
      (CrossTransformer.turnRun act attending (tokens, tokensT) (layer, layerT)).swap := by
  cases own : layer.norm3 with
  | none =>
      have ownT : layerT.norm3 = none := by
        rw [own] at same
        exact Option.isNone_iff_eq_none.mp (Option.isSome_eq_false_iff.mp same.symm)
      simp only [CrossTransformer.turnRun, own, ownT, Option.isNone_none, if_true,
        Prod.swap_prod_mk]
  | some norm =>
      obtain ⟨normT, ownT⟩ : ∃ normT, layerT.norm3 = some normT := by
        rw [own] at same
        exact Option.isSome_iff_exists.mp same.symm
      simp only [CrossTransformer.turnRun, own, ownT, Option.isNone_some, Bool.false_eq_true,
        if_false, Prod.swap_prod_mk]

theorem CrossTransformer.mixedRun_exchange (act : Activations K) (attending : Attending K)
    (transformer : CrossTransformer K) (tokens tokensT : List (List K)) :
    transformer.exchange.mixedRun act attending (tokensT, tokens) =
      (transformer.mixedRun act attending (tokens, tokensT)).swap := by
  have alternate := transformer.alternate
  unfold CrossTransformer.mixedRun CrossTransformer.exchange
  dsimp only
  generalize transformer.layers = layers at alternate
  generalize transformer.layersT = layersT at alternate
  induction alternate generalizing tokens tokensT with
  | nil => rfl
  | cons same _ ih =>
      rw [List.zip_cons_cons, List.zip_cons_cons, List.foldl_cons, List.foldl_cons,
        CrossTransformer.turnRun_exchange act attending same]
      exact ih _ _

end

end Stemd.Mlx.Transformer
