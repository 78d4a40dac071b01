import Stemd.Mlx.Stft

/-! How a complex spectrogram passes through a network of real channels.

Going in, each audio channel becomes two neighbouring ones, its real part and its imaginary
part. What comes out has an axis of sources more, and is put together again under it. Sample
arithmetic is exact. -/

set_option autoImplicit false

namespace Stemd.Mlx.HtDemucs

open Stemd.Semantics

section

variable {K : Type} [Zero K]

/-- Real and imaginary parts interleaved as channels: `[B, C, F, T]` complex becomes
`[B, 2C, F, T]` real. -/
def complexAsChannels (z : Tensor (Complex64 K)) : Except SpectralError (Tensor K) := do
  let b :: c :: f :: t :: _ := z.shape | throw .array
  let stacked ← fitting (Tensor.stackAxis [z.map Complex64.re, z.map Complex64.im] 2)
  fitting (stacked.reshape [b, c * 2, f, t])

variable [One K] [Add K] [Sub K] [Mul K]

/-- The inverse: `[B, S, 2C, F, T]` real becomes `[B, S, C, F, T]` complex. -/
def channelsAsComplex (x : Tensor K) : Except SpectralError (Tensor (Complex64 K)) := do
  let b :: sources :: c2 :: f :: t :: _ := x.shape | throw .array
  let split ← fitting (x.reshape [b, sources, c2 / 2, 2, f, t])
  let moved ← fitting (split.transposeAxes [0, 1, 2, 4, 5, 3])
  let real ← fitting (moved.select 5 0)
  let imag ← fitting (moved.select 5 1)
  -- There is no `complex(re, im)`: the imaginary part is multiplied by `i` and added.
  let turned := (imag.map Complex64.ofReal).map fun v => v.mul ⟨0, 1⟩
  fitting ((real.map Complex64.ofReal).zipWith Complex64.add turned)

end

section

variable {K : Type} [Zero K]

theorem complexAsChannels_spec {z : Tensor (Complex64 K)} {B C F N : Nat}
    (shape : z.shape = [B, C, F, N]) :
    ∃ x, complexAsChannels z = .ok x ∧ x.shape = [B, C * 2, F, N] ∧
      ∀ b c f n, b < B → c < C → f < F → n < N →
        x.get [b, c * 2, f, n] = (z.get [b, c, f, n]).re ∧
        x.get [b, c * 2 + 1, f, n] = (z.get [b, c, f, n]).im := by
  have shapes : ∀ part ∈ [z.map Complex64.re, z.map Complex64.im],
      part.shape = [B, C] ++ [F, N] := by
    simp [shape]
  obtain ⟨stacked, stacking, stackedShape, stackedEntry⟩ :=
    Tensor.stackAxis_spec [B, C] [F, N] (by simp) shapes
  have stacking' : Tensor.stackAxis [z.map Complex64.re, z.map Complex64.im] 2 = some stacked :=
    stacking
  obtain ⟨x, reshaped, xShape, xEntry⟩ := Tensor.mergeAxes_spec [B] C 2 [F, N] stackedShape
  have reshaped' : stacked.reshape [B, C * 2, F, N] = some x := reshaped
  refine ⟨x, ?_, xShape, fun b c f n row channel bin frame => ?_⟩
  · simp only [complexAsChannels, shape, stacking', reshaped', fitting, bind, Except.bind]
  · have within : Within [b, c, f, n] z.shape :=
      shape ▸ .cons row (.cons channel (.cons bin (.cons frame .nil)))
    -- A part is a channel of its own, next to the other of the same audio channel.
    have entry : ∀ (p : Nat) (part : Complex64 K → K),
        [z.map Complex64.re, z.map Complex64.im][p]? = some (z.map part) →
          x.get [b, c * 2 + p, f, n] = part (z.get [b, c, f, n]) := by
      intro p part is
      have from_pair := stackedEntry p (z.map part) is [b, c] [f, n]
        (.cons row (.cons channel .nil)) (.cons bin (.cons frame .nil))
      exact (xEntry [b] c p [f, n] rfl).trans (from_pair.trans (Tensor.get_map part within))
    exact ⟨entry 0 Complex64.re rfl, entry 1 Complex64.im rfl⟩

theorem channel_cases {C k : Nat} (below : k < C * 2) :
    ∃ c, c < C ∧ (k = c * 2 ∨ k = c * 2 + 1) :=
  ⟨k / 2, by omega, by omega⟩

def Laid (x : Tensor K) (s : Nat) (z : Tensor (Complex64 K)) : Prop :=
  ∃ slice, complexAsChannels z = .ok slice ∧ x.select 1 s = some slice

theorem laid_iff {x : Tensor K} {z : Tensor (Complex64 K)} {B S C F N s : Nat}
    (shape : x.shape = [B, S, C * 2, F, N]) (plain : z.shape = [B, C, F, N]) (source : s < S) :
    Laid x s z ↔ ∀ b c f n, b < B → c < C → f < F → n < N →
      x.get [b, s, c * 2, f, n] = (z.get [b, c, f, n]).re ∧
      x.get [b, s, c * 2 + 1, f, n] = (z.get [b, c, f, n]).im := by
  obtain ⟨slice, laid, sliceShape, entry⟩ := complexAsChannels_spec plain
  have reads := Tensor.select_eq_some_iff [B] S [C * 2, F, N] shape source sliceShape
  have one : Laid x s z ↔ x.select 1 s = some slice := by
    rw [Laid, laid]
    constructor
    · rintro ⟨slice', same, selected⟩
      rw [Except.ok.inj same, selected]
    · intro selected
      exact ⟨slice, rfl, selected⟩
  refine (one.trans reads).trans ⟨?_, ?_⟩
  · intro same b c f n row channel bin frame
    obtain ⟨re, im⟩ := entry b c f n row channel bin frame
    have here (k : Nat) (below : k < C * 2) :
        x.get [b, s, k, f, n] = slice.get [b, k, f, n] :=
      same [b] [k, f, n] (.cons row .nil) (.cons below (.cons bin (.cons frame .nil)))
    exact ⟨(here (c * 2) (by omega)).trans re, (here (c * 2 + 1) (by omega)).trans im⟩
  · intro parts i j outer inner
    obtain ⟨b, rfl, row⟩ := Tensor.within_one outer
    obtain ⟨k, f, n, rfl, below, bin, frame⟩ := Tensor.within_three inner
    obtain ⟨c, channel, rfl | rfl⟩ := channel_cases below
    · exact (parts b c f n row channel bin frame).1.trans
        (entry b c f n row channel bin frame).1.symm
    · exact (parts b c f n row channel bin frame).2.trans
        (entry b c f n row channel bin frame).2.symm

theorem laid_exists {B S C F N : Nat} (z : Fin S → Tensor (Complex64 K))
    (plain : ∀ s, (z s).shape = [B, C, F, N]) :
    ∃ x : Tensor K, x.shape = [B, S, C * 2, F, N] ∧ ∀ s : Fin S, Laid x s (z s) := by
  let entry (b s k f n : Nat) : K :=
    if inside : s < S then
      if k % 2 = 0 then ((z ⟨s, inside⟩).get [b, k / 2, f, n]).re
      else ((z ⟨s, inside⟩).get [b, k / 2, f, n]).im
    else 0
  refine ⟨.build [B, S, C * 2, F, N] fun index => entry (index.getD 0 0) (index.getD 1 0)
    (index.getD 2 0) (index.getD 3 0) (index.getD 4 0), rfl, fun s => ?_⟩
  rw [laid_iff rfl (plain s) s.isLt]
  intro b c f n row channel bin frame
  have within (k : Nat) (below : k < C * 2) : Within [b, s, k, f, n] [B, S, C * 2, F, N] :=
    .cons row (.cons s.isLt (.cons below (.cons bin (.cons frame .nil))))
  rw [Tensor.get_build _ (within (c * 2) (by omega)),
    Tensor.get_build _ (within (c * 2 + 1) (by omega))]
  have odd : (c * 2 + 1) / 2 = c := by omega
  simp [entry, odd, Nat.add_mod]

theorem parted_spec {x : Tensor K} {B S C F N : Nat} (shape : x.shape = [B, S, C * 2, F, N]) :
    ∃ split moved, x.reshape [B, S, C, 2, F, N] = some split ∧
      split.transposeAxes [0, 1, 2, 4, 5, 3] = some moved ∧ moved.shape = [B, S, C, F, N, 2] ∧
      ∀ b s c f n p, b < B → s < S → c < C → f < F → n < N → p < 2 →
        moved.get [b, s, c, f, n, p] = x.get [b, s, c * 2 + p, f, n] := by
  obtain ⟨split, reshaped, splitShape, splitEntry⟩ :=
    Tensor.splitAxis_spec [B, S] C 2 [F, N] shape
  have rank : split.shape.length = 6 := by rw [splitShape]; rfl
  have order : [0, 1, 2, 4, 5, 3].Perm (List.range split.shape.length) := by
    rw [rank]
    decide
  obtain ⟨moved, transposed, movedShape, movedEntry⟩ := Tensor.transposeAxes_spec order
  have axes : [0, 1, 2, 4, 5, 3].map (fun axis => split.shape.getD axis 0) =
      [B, S, C, F, N, 2] := by
    rw [splitShape]
    rfl
  rw [axes] at movedShape movedEntry
  refine ⟨split, moved, reshaped, transposed, movedShape, ?_⟩
  intro b s c f n p row source channel bin frame small
  have from_split := movedEntry [b, s, c, f, n, p] (.cons row (.cons source (.cons channel
    (.cons bin (.cons frame (.cons small .nil))))))
  exact from_split.trans (splitEntry [b, s] c p [f, n] rfl)

end

section

variable {K : Type} [Ring K]

theorem channelsAsComplex_spec {x : Tensor K} {B S C F N : Nat}
    (shape : x.shape = [B, S, C * 2, F, N]) :
    ∃ z, channelsAsComplex x = .ok z ∧ z.shape = [B, S, C, F, N] ∧
      ∀ b s c f n, b < B → s < S → c < C → f < F → n < N →
        z.get [b, s, c, f, n] =
          ⟨x.get [b, s, c * 2, f, n], x.get [b, s, c * 2 + 1, f, n]⟩ := by
  obtain ⟨split, moved, reshaped, transposed, movedShape, movedEntry⟩ := parted_spec shape
  obtain ⟨real, reals, realShape, realEntry⟩ :=
    Tensor.select_spec [B, S, C, F, N] 2 [] movedShape (show 0 < 2 by omega)
  obtain ⟨imag, imags, imagShape, imagEntry⟩ :=
    Tensor.select_spec [B, S, C, F, N] 2 [] movedShape (show 1 < 2 by omega)
  have reals' : moved.select 5 0 = some real := reals
  have imags' : moved.select 5 1 = some imag := imags
  obtain ⟨z, added, zShape, zEntry⟩ := Tensor.zipWith_self_spec Complex64.add
    (x := real.map Complex64.ofReal)
    (y := (imag.map Complex64.ofReal).map fun v => v.mul ⟨0, 1⟩)
    (imagShape.trans realShape.symm)
  rw [Tensor.map_shape, realShape] at zShape zEntry
  refine ⟨z, ?_, zShape, fun b s c f n row source channel bin frame => ?_⟩
  · have half : C * 2 / 2 = C := Nat.mul_div_cancel C (by omega)
    simp only [channelsAsComplex, shape, half, reshaped, transposed, reals', imags', added,
      fitting, bind, Except.bind]
  · have here : Within [b, s, c, f, n] [B, S, C, F, N] :=
      .cons row (.cons source (.cons channel (.cons bin (.cons frame .nil))))
    have turnedShape : (imag.map Complex64.ofReal).shape = [B, S, C, F, N] := imagShape
    rw [zEntry _ here, Tensor.get_map _ (realShape ▸ here),
      Tensor.get_map _ (turnedShape ▸ here), Tensor.get_map _ (imagShape ▸ here),
      Complex64.together]
    have re := realEntry [b, s, c, f, n] [] here .nil
    have im := imagEntry [b, s, c, f, n] [] here .nil
    rw [List.append_nil] at re im
    rw [re, im]
    exact congrArg₂ Complex64.mk (movedEntry b s c f n 0 row source channel bin frame (by omega))
      (movedEntry b s c f n 1 row source channel bin frame (by omega))

theorem channelsAsComplex_odd {x : Tensor K} {B S channels F N : Nat}
    (shape : x.shape = [B, S, channels, F, N]) (odd : channels % 2 = 1)
    (rest : B * S * F * N ≠ 0) : channelsAsComplex x = .error .array := by
  have fewer : [B, S, channels / 2, 2, F, N].prod ≠ x.shape.prod := by
    intro same
    have factored : B * S * F * N * (channels / 2 * 2) = B * S * F * N * channels := by
      calc
        _ = [B, S, channels / 2, 2, F, N].prod := by simp only [List.prod_cons, List.prod_nil]; ring
        _ = x.shape.prod := same
        _ = _ := by rw [shape]; simp only [List.prod_cons, List.prod_nil]; ring
    have whole := Nat.eq_of_mul_eq_mul_left (Nat.pos_of_ne_zero rest) factored
    omega
  have refused : x.reshape [B, S, channels / 2, 2, F, N] = none := dif_neg fewer
  simp only [channelsAsComplex, shape, refused, fitting, bind, Except.bind]

/-- What is put together has the spectrograms for its slices that were laid out, and only
those. -/
theorem slices_iff {x : Tensor K} {y : Tensor (Complex64 K)} {B S C F N s : Nat}
    (shape : x.shape = [B, S, C * 2, F, N]) (joined : channelsAsComplex x = .ok y)
    (source : s < S) {z : Tensor (Complex64 K)} (plain : z.shape = [B, C, F, N]) :
    y.select 1 s = some z ↔ Laid x s z := by
  obtain ⟨y', joined', yShape, entry⟩ := channelsAsComplex_spec shape
  cases Except.ok.inj (joined'.symm.trans joined)
  have reads := Tensor.select_eq_some_iff [B] S [C, F, N] yShape source plain
  rw [laid_iff shape plain source]
  refine reads.trans ⟨?_, ?_⟩
  · intro same b c f n row channel bin frame
    have here : y.get [b, s, c, f, n] = z.get [b, c, f, n] :=
      same [b] [c, f, n] (.cons row .nil) (.cons channel (.cons bin (.cons frame .nil)))
    rw [← here, entry b s c f n row source channel bin frame]
    exact ⟨rfl, rfl⟩
  · intro parts i j outer inner
    obtain ⟨b, rfl, row⟩ := Tensor.within_one outer
    obtain ⟨c, f, n, rfl, channel, bin, frame⟩ := Tensor.within_three inner
    obtain ⟨re, im⟩ := parts b c f n row channel bin frame
    exact (entry b s c f n row source channel bin frame).trans (congrArg₂ Complex64.mk re im)

end

/-- The two layouts undo each other: sources, audio channels and parts keep their places both
ways. -/
theorem channels_round_trip {K : Type} [Ring K] (B S C F N : Nat) :
    (∀ z : Fin S → Tensor (Complex64 K), (∀ s, (z s).shape = [B, C, F, N]) →
      (∃ x, x.shape = [B, S, C * 2, F, N] ∧ ∀ s : Fin S, Laid x s (z s)) ∧
      ∀ x : Tensor K, x.shape = [B, S, C * 2, F, N] → (∀ s : Fin S, Laid x s (z s)) →
        ∃ y, channelsAsComplex x = .ok y ∧ y.shape = [B, S, C, F, N] ∧
          (∀ s : Fin S, y.select 1 s = some (z s)) ∧
          ∀ b (s : Fin S) c f n, b < B → c < C → f < F → n < N →
            (y.get [b, s, c, f, n]).re = ((z s).get [b, c, f, n]).re ∧
            (y.get [b, s, c, f, n]).im = ((z s).get [b, c, f, n]).im) ∧
    ∀ (channels : Nat) (x : Tensor K), channels % 2 = 0 → x.shape = [B, S, channels, F, N] →
      ∃ y, channelsAsComplex x = .ok y ∧ y.shape = [B, S, channels / 2, F, N] ∧
        ∀ s < S, ∃ z slice, y.select 1 s = some z ∧ x.select 1 s = some slice ∧
          complexAsChannels z = .ok slice := by
  constructor
  · intro z plain
    refine ⟨laid_exists z plain, fun x shape laid => ?_⟩
    obtain ⟨y, joined, yShape, entry⟩ := channelsAsComplex_spec shape
    refine ⟨y, joined, yShape, fun s => ?_, fun b s c f n row channel bin frame => ?_⟩
    · exact (slices_iff shape joined s.isLt (plain s)).mpr (laid s)
    · rw [entry b s c f n row s.isLt channel bin frame]
      exact (laid_iff shape (plain s) s.isLt).mp (laid s) b c f n row channel bin frame
  · intro channels x even shape
    obtain ⟨C', rfl⟩ : ∃ C', channels = C' * 2 := ⟨channels / 2, by omega⟩
    rw [Nat.mul_div_cancel C' (by omega)]
    obtain ⟨y, joined, yShape, entry⟩ := channelsAsComplex_spec shape
    refine ⟨y, joined, yShape, fun s source => ?_⟩
    obtain ⟨z, selected, plain, -⟩ := Tensor.select_spec [B] S [C', F, N] yShape source
    obtain ⟨slice, laid, sliced⟩ := (slices_iff shape joined source plain).mp selected
    exact ⟨z, slice, selected, sliced, laid⟩

def stereoSpectra (s : Fin 2) : Tensor (Complex64 ℤ) where
  shape := [1, 2, 1, 1]
  data := if s = 0 then [⟨1, 2⟩, ⟨3, 4⟩] else [⟨5, 6⟩, ⟨7, 8⟩]
  size := by decide +revert

def stereoChannels : Tensor ℤ where
  shape := [1, 2, 4, 1, 1]
  data := [1, 2, 3, 4, 5, 6, 7, 8]
  size := rfl

theorem stereo_round_trip :
    (∃ y, channelsAsComplex stereoChannels = .ok y ∧
      ∀ s : Fin 2, y.select 1 s = some (stereoSpectra s)) ∧
    ∃ y, channelsAsComplex stereoChannels = .ok y ∧ ∀ s < 2, ∃ z slice,
      y.select 1 s = some z ∧ stereoChannels.select 1 s = some slice ∧
        complexAsChannels z = .ok slice := by
  obtain ⟨joined, parted⟩ := channels_round_trip (K := ℤ) 1 2 2 1 1
  have laid : ∀ s : Fin 2, Laid stereoChannels s (stereoSpectra s) := by
    intro s
    match s with
    | 0 | 1 => exact ⟨_, rfl, rfl⟩
  obtain ⟨y, is, -, slices, -⟩ := (joined stereoSpectra fun _ => rfl).2 stereoChannels rfl laid
  obtain ⟨y', is', -, slices'⟩ := parted 4 stereoChannels rfl rfl
  exact ⟨⟨y, is, slices⟩, y', is', slices'⟩

end Stemd.Mlx.HtDemucs
