import Stemd.Mlx.Crossfade
import Stemd.Mlx.Segment

/-! The two models as what a track is cut up for.

A chunk is one item of a batch, and what a model gives back for it is as long. Either model takes
every chunk of its own length, so that a run over a track has nothing to fail on. -/

set_option autoImplicit false

namespace Stemd.Mlx

open Stemd.Semantics

section

variable {K : Type} [Zero K]

def asTensor {C : Nat} (x : Rows (Unit × Fin C) K) : Tensor K :=
  .build [1, C, x.width] fun
    | [_, c, t] => if channel : c < C then x.sample ((), ⟨c, channel⟩) t else 0
    | _ => 0

omit [Zero K] in
theorem sampled_length (t : Nat) (f : Nat → K) : ((List.range t).map f).length = t := by
  rw [List.length_map, List.length_range]

def asRows (S C : Nat) (y : Tensor K) : Option (Rows (Unit × Fin S × Fin C) K) :=
  match y.shape with
  | [b, s, c, t] =>
    if b = 1 ∧ s = S ∧ c = C then
      some ⟨t, fun name => (List.range t).map fun i => y.get [0, name.2.1, name.2.2, i],
        fun _ => sampled_length t _⟩
    else none
  | _ => none

theorem asRows_spec {y : Tensor K} {S C T : Nat} (shape : y.shape = [1, S, C, T]) :
    ∃ rows, asRows S C y = some rows ∧ rows.width = T := by
  refine ⟨⟨T, fun name => (List.range T).map fun i => y.get [0, name.2.1, name.2.2, i],
    fun _ => sampled_length T _⟩, ?_, rfl⟩
  simp only [asRows, shape, and_self, if_true]

end

section

variable {K E : Type} [Field K] [LinearOrder K]

open HtDemucs (Settings Demucs SegmentError) in
/-- `impl Chunked for HtDemucs` -/
def chunkedDemucs {settings : Settings K} (channels : Nat) (fail : SegmentError → E)
    (runtime : HtDemucs.Runtime K) (demucs : Demucs settings) :
    Chunked Unit (Fin channels) K E where
  chunk := settings.trainingLength
  sources := settings.sources
  separateChunk chunk :=
    match demucs.forward runtime (asTensor chunk) with
    | .error e => .error (fail e)
    | .ok out => parsed (asRows settings.sources channels out) (fail (.array .array))

open Roformer (Architecture BsRoformer ForwardError) in
/-- `impl Chunked for BsRoformer`, of which there is one source. -/
def chunkedRoformer {config : Architecture} (channels : Nat) (fail : ForwardError → E)
    (runtime : Roformer.Runtime K) (model : BsRoformer config K) :
    Chunked Unit (Fin channels) K E where
  chunk := config.chunk
  sources := 1
  separateChunk chunk :=
    match model.forward runtime (asTensor chunk) with
    | .error e => .error (fail e)
    | .ok out =>
      match out.shape with
      | [b, c, t] => parsed ((out.reshape [b, 1, c, t]).bind (asRows 1 channels))
          (fail (.array .array))
      | _ => .error (fail (.array .array))

open HtDemucs (Settings Demucs SegmentError) in
theorem chunkedDemucs_takes {settings : Settings K} {channels : Nat}
    (own : settings.audioChannels = channels) (fail : SegmentError → E)
    (runtime : HtDemucs.Runtime K) (demucs : Demucs settings)
    (trained : settings.Trained demucs.model.freqEmb.bins) :
    (chunkedDemucs channels fail runtime demucs).Takes := by
  have long := trained.long
  refine ⟨?_, fun chunk wide => ?_⟩
  · change 1 ≤ (settings.trainingLength : Int)
    omega
  · change (chunk.width : Int) = (settings.trainingLength : Int) at wide
    subst own
    have shape : (asTensor chunk).shape = [1, settings.audioChannels, chunk.width] := rfl
    obtain ⟨-, -, runs⟩ := demucs.forward_spec runtime trained Nat.one_pos shape
    obtain ⟨out, forward, shape⟩ := runs (by omega) rfl
    obtain ⟨rows, is, width⟩ := asRows_spec shape
    refine ⟨rows, ?_, width⟩
    simp only [chunkedDemucs, forward, is, parsed, Option.elim]

open Roformer (Architecture BsRoformer ForwardError) in
theorem chunkedRoformer_takes {config : Architecture} {channels : Nat}
    (own : config.audioChannels = channels) (fail : ForwardError → E)
    (runtime : Roformer.Runtime K) (model : BsRoformer config K)
    (long : config.nFft / 2 < config.chunk) :
    (chunkedRoformer channels fail runtime model).Takes := by
  refine ⟨?_, fun given wide => ?_⟩
  · change 1 ≤ (config.chunk : Int)
    omega
  · change (given.width : Int) = (config.chunk : Int) at wide
    subst own
    obtain ⟨-, -, runs⟩ := model.forward_spec runtime
      (show (asTensor given).shape = [1, config.audioChannels, given.width] from rfl)
    obtain ⟨out, forward, shape⟩ := runs rfl (by omega)
    obtain ⟨split, reshaped, splitShape, -⟩ := out.reshape_spec [1, 1, config.audioChannels,
      given.width] (by rw [shape]; simp)
    obtain ⟨rows, is, width⟩ := asRows_spec splitShape
    refine ⟨rows, ?_, width⟩
    simp only [chunkedRoformer, forward, shape, reshaped, Option.bind_some, is, parsed, Option.elim]

end

end Stemd.Mlx
