import Stemd.Mlx.Bands
import Stemd.Mlx.Stft

/-! The band-split model around its networks: how a spectrogram is unrolled into features, and
how the mask that comes back is applied to it.

Features are ordered by frequency, then audio channel, then real and imaginary part. The
order is fixed in one place, undone in another and cut into bands in between, and the shapes
would agree under any other. -/

set_option autoImplicit false

namespace Stemd.Mlx

open Stemd.Semantics

namespace Roformer

/-- Where a part of a channel of a bin stands among the features: part 0 is real. -/
def feature (channels f c part : Nat) : Nat := (f * channels + c) * 2 + part

section

variable {K : Type} [Zero K]

/-- `[B, C, F, N]` twice `-> [B, N, F * C * 2]` -/
def interleave (real imag : Tensor K) : Except SpectralError (Tensor K) := do
  let [batch, channels, bins, frames] := real.shape | throw .array
  let paired ← fitting (Tensor.stackAxis [real, imag] 4)
  let ordered ← fitting (paired.transposeAxes [0, 3, 2, 1, 4])
  fitting (ordered.reshape [batch, frames, bins * channels * 2])

/-- `[B, C, F, N] -> [B, F * C, N]`, in the order of the flattening. -/
def ordered (batch planes frames : Nat) (a : Tensor K) : Except SpectralError (Tensor K) := do
  let a ← fitting (a.transposeAxes [0, 2, 1, 3])
  fitting (a.reshape [batch, planes, frames])

/-- `[B, F * C, N] -> [B, C, F, N]` -/
def split (batch bins channels frames : Nat) (a : Tensor K) :
    Except SpectralError (Tensor K) := do
  let a ← fitting (a.reshape [batch, bins, channels, frames])
  fitting (a.transposeAxes [0, 2, 1, 3])

/-- The bins from 1 on, and a zero where bin 0 was. -/
def dropDc (bins : Nat) (a : Tensor K) : Except SpectralError (Tensor K) := do
  let keep := stepBy 1 bins 1
  let kept ← fitting (a.takeAxis keep 2)
  fitting (kept.pad [(0, 0), (0, 0), (1, 0), (0, 0)])

variable [One K] [Add K] [Sub K] [Mul K]

/-- The product of the spectrogram and the mask, without its DC bin: `apply` up to the inverse
transform. -/
def maskedSpectrum (config : Config) (mask real imag : Tensor K) :
    Except SpectralError (Tensor (Complex64 K)) := do
  let batch :: _ := real.shape | throw .array
  let channels := config.audioChannels
  let bins := config.bins
  let planes := bins * channels
  let (_, frames) ← lastAxis real
  let mask ← fitting (mask.reshape [batch, frames, planes, 2])
  let mask ← fitting (mask.transposeAxes [0, 2, 1, 3])
  let maskReal ← fitting (mask.select 3 0)
  let maskImag ← fitting (mask.select 3 1)
  let specReal ← ordered batch planes frames real
  let specImag ← ordered batch planes frames imag
  -- (a + bi)(c + di) = (ac - bd) + (ad + bc)i
  let ac ← fitting (specReal.zipWith (· * ·) maskReal)
  let bd ← fitting (specImag.zipWith (· * ·) maskImag)
  let ad ← fitting (specReal.zipWith (· * ·) maskImag)
  let bc ← fitting (specImag.zipWith (· * ·) maskReal)
  let outReal ← fitting (ac.zipWith (· - ·) bd)
  let outImag ← fitting (ad.zipWith (· + ·) bc)
  let outReal ← split batch bins channels frames outReal
  let outImag ← split batch bins channels frames outImag
  let outReal ← dropDc bins outReal
  let outImag ← dropDc bins outImag
  let turned := (outImag.map Complex64.ofReal).map fun v => v.mul ⟨0, 1⟩
  fitting ((outReal.map Complex64.ofReal).zipWith Complex64.add turned)

end

/-- Apply a mask to the spectrogram it was estimated from, and invert. -/
def apply {K : Type} [Field K] [LinearOrder K] (fourier : Fourier K) (stft : Stft K)
    (config : Config) (mask real imag : Tensor K) (samples : Int) :
    Except SpectralError (Tensor K) := do
  let spectrum ← maskedSpectrum config mask real imag
  stft.inverse fourier spectrum samples true

/-- Every feature is one part of one channel of one bin. -/
theorem feature_unique {bins channels k : Nat} (below : k < bins * channels * 2) :
    ∃! place : Nat × Nat × Nat, (place.1 < bins ∧ place.2.1 < channels ∧ place.2.2 < 2) ∧
      feature channels place.1 place.2.1 place.2.2 = k := by
  have within : Within (indexAt [bins, channels, 2] k) [bins, channels, 2] :=
    within_indexAt (by simpa [Nat.mul_assoc] using below)
  have back : position [bins, channels, 2] (indexAt [bins, channels, 2] k) = k :=
    position_indexAt (by simpa [Nat.mul_assoc] using below)
  have position_feature : ∀ f c part, position [bins, channels, 2] [f, c, part] =
      feature channels f c part := by
    intro f c part
    simp [position, feature]
    ring
  obtain ⟨f, c, part, is, bin, channel, small⟩ := Tensor.within_three within
  rw [is, position_feature] at back
  refine ⟨(f, c, part), ⟨⟨bin, channel, small⟩, back⟩, ?_⟩
  rintro ⟨f', c', part'⟩ ⟨⟨bin', channel', small'⟩, at_k⟩
  have inside : Within [f', c', part'] [bins, channels, 2] :=
    .cons bin' (.cons channel' (.cons small' .nil))
  -- A feature knows the index it was numbered by.
  have again := indexAt_position inside
  rw [position_feature, at_k, is] at again
  cases again
  rfl

theorem bandFeatures_sum {config : Config} (checked : config.check = .ok ()) :
    config.bandFeatures.sum = config.bins * config.audioChannels * 2 := by
  have sums : config.bands.sum = config.bins := by
    unfold Config.check at checked
    split at checked
    · cases checked
    · next equal => exact not_not.mp equal
  rw [Config.bandFeatures, ← sums]
  generalize config.bands = bands
  induction bands with
  | nil => simp
  | cons f bands ih =>
      rw [List.map_cons, List.sum_cons, ih, List.sum_cons]
      ring

/-- Every feature falls in one band, at one place. -/
theorem band_unique {widths : List Nat} {k : Nat} (below : k < widths.sum) :
    ∃! place : Nat × Nat, ∃ width, widths[place.1]? = some width ∧ place.2 < width ∧
      (widths.take place.1).sum + place.2 = k := by
  refine ⟨Tensor.locate widths k, Tensor.locate_inside below, ?_⟩
  rintro ⟨i, j⟩ ⟨width, at_i, inner, total⟩
  rw [← total, Tensor.locate_spec at_i inner]

section

variable {K : Type} [Zero K]

theorem interleave_spec {real imag : Tensor K} {B C F N : Nat}
    (realShape : real.shape = [B, C, F, N]) (imagShape : imag.shape = [B, C, F, N]) :
    ∃ flat, interleave real imag = .ok flat ∧ flat.shape = [B, N, F * C * 2] ∧
      ∀ b c f n, b < B → c < C → f < F → n < N →
        flat.get [b, n, feature C f c 0] = real.get [b, c, f, n] ∧
        flat.get [b, n, feature C f c 1] = imag.get [b, c, f, n] := by
  have shapes : ∀ part ∈ [real, imag], part.shape = [B, C, F, N] ++ [] := by
    simp [realShape, imagShape]
  obtain ⟨paired, stacked, pairedShape, pairedEntry⟩ :=
    Tensor.stackAxis_spec [B, C, F, N] [] (by simp) shapes
  have stacked' : Tensor.stackAxis [real, imag] 4 = some paired := stacked
  have rank : paired.shape.length = 5 := by rw [pairedShape]; rfl
  have order : [0, 3, 2, 1, 4].Perm (List.range paired.shape.length) := by
    rw [rank]
    decide
  obtain ⟨turned, transposed, turnedShape, turnedEntry⟩ := Tensor.transposeAxes_spec order
  have axes : [0, 3, 2, 1, 4].map (fun axis => paired.shape.getD axis 0) = [B, N, F, C, 2] := by
    rw [pairedShape]
    rfl
  rw [axes] at turnedShape turnedEntry
  obtain ⟨flat, reshaped, flatShape, flatEntry⟩ :=
    turned.reshape_spec [B, N, F * C * 2] (by rw [turnedShape]; simp [Nat.mul_assoc])
  refine ⟨flat, ?_, flatShape, fun b c f n row channel bin frame => ?_⟩
  · simp only [interleave, realShape, stacked', transposed, reshaped, fitting, bind, Except.bind]
  · have entry : ∀ part source, part < 2 → [real, imag][part]? = some source →
        flat.get [b, n, feature C f c part] = source.get [b, c, f, n] := by
      intro part source small is
      -- The reshape only moves the brackets: bin, channel and part count as one coordinate.
      have place : position [B, N, F * C * 2] [b, n, feature C f c part] =
          position turned.shape [b, n, f, c, part] := by
        rw [turnedShape]
        simp [position, feature]
        ring
      have from_pair := turnedEntry [b, n, f, c, part]
        (.cons row (.cons frame (.cons bin (.cons channel (.cons small .nil)))))
      rw [flatEntry _ _ place, from_pair]
      exact pairedEntry part source is [b, c, f, n] []
        (.cons row (.cons channel (.cons bin (.cons frame .nil)))) .nil
    exact ⟨entry 0 real (by omega) rfl, entry 1 imag (by omega) rfl⟩

theorem ordered_spec {a : Tensor K} {B C F N : Nat} (shape : a.shape = [B, C, F, N]) :
    ∃ y, ordered B (F * C) N a = .ok y ∧ y.shape = [B, F * C, N] ∧
      ∀ b c f n, b < B → c < C → f < F → n < N →
        y.get [b, f * C + c, n] = a.get [b, c, f, n] := by
  obtain ⟨turned, transposed, turnedShape, turnedEntry⟩ := Tensor.transposeMiddle_spec shape
  obtain ⟨y, reshaped, yShape, yEntry⟩ := Tensor.mergeAxes_spec [B] F C [N] turnedShape
  have reshaped' : turned.reshape [B, F * C, N] = some y := reshaped
  refine ⟨y, ?_, yShape, fun b c f n row channel bin frame => ?_⟩
  · simp only [ordered, transposed, reshaped', fitting, bind, Except.bind]
  · exact (yEntry [b] f c [n] rfl).trans (turnedEntry b c f n row channel bin frame)

theorem split_spec {a : Tensor K} {B C F N : Nat} (shape : a.shape = [B, F * C, N]) :
    ∃ y, split B F C N a = .ok y ∧ y.shape = [B, C, F, N] ∧
      ∀ b c f n, b < B → c < C → f < F → n < N →
        y.get [b, c, f, n] = a.get [b, f * C + c, n] := by
  obtain ⟨apart, reshaped, apartShape, apartEntry⟩ := Tensor.splitAxis_spec [B] F C [N] shape
  have reshaped' : a.reshape [B, F, C, N] = some apart := reshaped
  obtain ⟨y, transposed, yShape, yEntry⟩ := Tensor.transposeMiddle_spec apartShape
  refine ⟨y, ?_, yShape, fun b c f n row channel bin frame => ?_⟩
  · simp only [split, reshaped', transposed, fitting, bind, Except.bind]
  · exact (yEntry b f c n row bin channel frame).trans (apartEntry [b] f c [n] rfl)

theorem dropDc_spec {a : Tensor K} {B C F N : Nat} (shape : a.shape = [B, C, F, N])
    (positive : 0 < F) :
    ∃ y, dropDc F a = .ok y ∧ y.shape = [B, C, F, N] ∧
      ∀ b c f n, b < B → c < C → f < F → n < N →
        y.get [b, c, f, n] = if f = 0 then 0 else a.get [b, c, f, n] := by
  have length : (stepBy 1 F 1).length = F - 1 := by
    simp [stepBy]
  have at_t : ∀ t < F - 1, (stepBy 1 F 1).getD t 0 = 1 + t := by
    intro t below
    rw [List.getD_eq_getElem _ _ (by omega)]
    simp [stepBy]
  have inside : ∀ n ∈ stepBy 1 F 1, 0 ≤ n ∧ n < F := by
    intro n member
    obtain ⟨t, below, is⟩ := List.mem_iff_getElem.mp member
    have here := at_t t (by omega)
    rw [List.getD_eq_getElem _ _ below, is] at here
    omega
  obtain ⟨kept, taken, keptShape, keptEntry⟩ :=
    Tensor.takeAxis_spec [B, C] F [N] shape (stepBy 1 F 1) inside
  rw [length] at keptShape keptEntry
  have taken' : a.takeAxis (stepBy 1 F 1) 2 = some kept := taken
  have keptShape' : kept.shape = [B, C, F - 1, N] := keptShape
  obtain ⟨y, padded, yShape, yEntry⟩ :=
    @Tensor.pad_spec _ _ kept [(0, 0), (0, 0), (1, 0), (0, 0)] (by rw [keptShape']; rfl)
      (by simp)
  have whole : Tensor.paddedShape [(0, 0), (0, 0), (1, 0), (0, 0)] kept.shape = [B, C, F, N] := by
    have back : 1 + (F - 1) = F := by omega
    simp [Tensor.paddedShape, keptShape', back]
  rw [whole] at yShape yEntry
  refine ⟨y, ?_, yShape, fun b c f n row channel bin frame => ?_⟩
  · simp only [dropDc, taken', padded, fitting, bind, Except.bind]
  · rw [yEntry [b, c, f, n] (.cons row (.cons channel (.cons bin (.cons frame .nil)))), keptShape']
    -- Bin 0 is what the padding puts in front; the others are one further on than when taken.
    by_cases dc : f = 0
    · simp [Tensor.unpad, row, channel, dc]
    · have moved : f - 1 < F - 1 := by omega
      have from_kept := keptEntry [b, c] (f - 1) [n] (.cons row (.cons channel .nil)) moved
        (.cons frame .nil)
      rw [at_t _ moved, show ((1 : Int) + (f - 1 : Nat)).toNat = f by omega] at from_kept
      have unpadded : Tensor.unpad [(0, 0), (0, 0), (1, 0), (0, 0)] [B, C, F - 1, N] [b, c, f, n] =
          some [b, c, f - 1, n] := by
        simp [Tensor.unpad, row, channel, frame]
        omega
      rw [unpadded, if_neg dc]
      exact from_kept

theorem maskPlanes_spec {mask : Tensor K} {B P N : Nat} (shape : mask.shape = [B, N, P * 2]) :
    ∃ apart turned maskReal maskImag, mask.reshape [B, N, P, 2] = some apart ∧
      apart.transposeAxes [0, 2, 1, 3] = some turned ∧ turned.select 3 0 = some maskReal ∧
      turned.select 3 1 = some maskImag ∧ maskReal.shape = [B, P, N] ∧
      maskImag.shape = [B, P, N] ∧ ∀ b p n, b < B → p < P → n < N →
        maskReal.get [b, p, n] = mask.get [b, n, p * 2 + 0] ∧
        maskImag.get [b, p, n] = mask.get [b, n, p * 2 + 1] := by
  obtain ⟨apart, reshaped, apartShape, apartEntry⟩ := Tensor.splitAxis_spec [B, N] P 2 [] shape
  obtain ⟨turned, transposed, turnedShape, turnedEntry⟩ := Tensor.transposeMiddle_spec apartShape
  have entry : ∀ (part : Nat) (plane : Tensor K), part < 2 →
      (∀ i j, Within i [B, P, N] → Within j [] →
        plane.get (i ++ j) = turned.get (i ++ part :: j)) →
      ∀ b p n, b < B → p < P → n < N → plane.get [b, p, n] = mask.get [b, n, p * 2 + part] := by
    intro part plane small selected b p n row inside frame
    refine (selected [b, p, n] [] (.cons row (.cons inside (.cons frame .nil))) .nil).trans ?_
    -- The parts of a plane are neighbours among the mask's features.
    exact (turnedEntry b n p part row frame inside small).trans (apartEntry [b, n] p part [] rfl)
  obtain ⟨maskReal, reals, realShape, realEntry⟩ :=
    Tensor.select_spec [B, P, N] 2 [] turnedShape (show 0 < 2 by omega)
  obtain ⟨maskImag, imags, imagShape, imagEntry⟩ :=
    Tensor.select_spec [B, P, N] 2 [] turnedShape (show 1 < 2 by omega)
  refine ⟨apart, turned, maskReal, maskImag, reshaped, transposed, reals, imags, realShape,
    imagShape, fun b p n row inside frame => ⟨?_, ?_⟩⟩
  · exact entry 0 maskReal (by omega) realEntry b p n row inside frame
  · exact entry 1 maskImag (by omega) imagEntry b p n row inside frame

end

theorem plane_lt {F C f c : Nat} (bin : f < F) (channel : c < C) : f * C + c < F * C := by
  have row : (f + 1) * C ≤ F * C := Nat.mul_le_mul_right _ bin
  rw [Nat.succ_mul] at row
  omega

theorem bins_pos (config : Config) : 0 < config.bins := Nat.succ_pos _

section

variable {K : Type} [Ring K]

theorem maskedSpectrum_spec (config : Config) {mask real imag : Tensor K} {B N : Nat}
    (maskShape : mask.shape = [B, N, config.bins * config.audioChannels * 2])
    (realShape : real.shape = [B, config.audioChannels, config.bins, N])
    (imagShape : imag.shape = [B, config.audioChannels, config.bins, N]) :
    ∃ z, maskedSpectrum config mask real imag = .ok z ∧
      z.shape = [B, config.audioChannels, config.bins, N] ∧
      ∀ b c f n, b < B → c < config.audioChannels → f < config.bins → n < N →
        z.get [b, c, f, n] = if f = 0 then 0 else
          Complex64.mul ⟨real.get [b, c, f, n], imag.get [b, c, f, n]⟩
            ⟨mask.get [b, n, feature config.audioChannels f c 0],
              mask.get [b, n, feature config.audioChannels f c 1]⟩ := by
  -- The complex product is taken part by part: `ac - bd` and `bc + ad`.
  generalize binsIs : config.bins = F at *
  generalize channelsIs : config.audioChannels = C at *
  have positive : 0 < F := binsIs ▸ bins_pos config
  obtain ⟨apart, turned, maskReal, maskImag, reshaped, transposed, reals, imags, maskRealShape,
    maskImagShape, maskEntry⟩ := maskPlanes_spec maskShape
  obtain ⟨specReal, specRealIs, specRealShape, specRealEntry⟩ := ordered_spec realShape
  obtain ⟨specImag, specImagIs, specImagShape, specImagEntry⟩ := ordered_spec imagShape
  obtain ⟨ac, acIs, acShape, acEntry⟩ := Tensor.zipWith_self_spec (· * ·)
    (maskRealShape.trans specRealShape.symm)
  obtain ⟨bd, bdIs, bdShape, bdEntry⟩ := Tensor.zipWith_self_spec (· * ·)
    (maskImagShape.trans specImagShape.symm)
  obtain ⟨ad, adIs, adShape, adEntry⟩ := Tensor.zipWith_self_spec (· * ·)
    (maskImagShape.trans specRealShape.symm)
  obtain ⟨bc, bcIs, bcShape, bcEntry⟩ := Tensor.zipWith_self_spec (· * ·)
    (maskRealShape.trans specImagShape.symm)
  rw [specRealShape] at acShape acEntry adShape adEntry
  rw [specImagShape] at bdShape bdEntry bcShape bcEntry
  obtain ⟨outReal, outRealIs, outRealShape, outRealEntry⟩ := Tensor.zipWith_self_spec (· - ·)
    (bdShape.trans acShape.symm)
  obtain ⟨outImag, outImagIs, outImagShape, outImagEntry⟩ := Tensor.zipWith_self_spec (· + ·)
    (bcShape.trans adShape.symm)
  rw [acShape] at outRealShape outRealEntry
  rw [adShape] at outImagShape outImagEntry
  obtain ⟨splitReal, splitRealIs, splitRealShape, splitRealEntry⟩ := split_spec outRealShape
  obtain ⟨splitImag, splitImagIs, splitImagShape, splitImagEntry⟩ := split_spec outImagShape
  obtain ⟨keptReal, keptRealIs, keptRealShape, keptRealEntry⟩ :=
    dropDc_spec splitRealShape positive
  obtain ⟨keptImag, keptImagIs, keptImagShape, keptImagEntry⟩ :=
    dropDc_spec splitImagShape positive
  obtain ⟨z, zIs, zShape, zEntry⟩ := Tensor.zipWith_self_spec Complex64.add
    (x := keptReal.map Complex64.ofReal)
    (y := (keptImag.map Complex64.ofReal).map fun v => v.mul ⟨0, 1⟩)
    (keptImagShape.trans keptRealShape.symm)
  rw [Tensor.map_shape, keptRealShape] at zShape zEntry
  refine ⟨z, ?_, zShape, fun b c f n row channel bin frame => ?_⟩
  · have axis : lastAxis real = .ok (3, N) :=
      lastAxis_eq (show real.shape = [B, C, F] ++ [N] from realShape)
    simp only [maskedSpectrum, realShape, binsIs, channelsIs, axis, reshaped, transposed, reals,
      imags, specRealIs, specImagIs, acIs, bdIs, adIs, bcIs, outRealIs, outImagIs, splitRealIs,
      splitImagIs, keptRealIs, keptImagIs, zIs, fitting, bind, Except.bind]
  · have here : Within [b, c, f, n] [B, C, F, N] :=
      .cons row (.cons channel (.cons bin (.cons frame .nil)))
    have plane : Within [b, f * C + c, n] [B, F * C, N] :=
      .cons row (.cons (plane_lt bin channel) (.cons frame .nil))
    obtain ⟨maskRe, maskIm⟩ := maskEntry b (f * C + c) n row (plane_lt bin channel) frame
    have turnedShape : (keptImag.map Complex64.ofReal).shape = [B, C, F, N] := keptImagShape
    rw [zEntry _ here, Tensor.get_map _ (keptRealShape ▸ here),
      Tensor.get_map _ (turnedShape ▸ here), Tensor.get_map _ (keptImagShape ▸ here),
      Complex64.together, keptRealEntry b c f n row channel bin frame,
      keptImagEntry b c f n row channel bin frame]
    -- The DC bin is cleared after the product, whatever the mask says of it.
    by_cases dc : f = 0
    · rw [if_pos dc, if_pos dc, if_pos dc]
      rfl
    · rw [if_neg dc, if_neg dc, if_neg dc, splitRealEntry b c f n row channel bin frame,
        splitImagEntry b c f n row channel bin frame, outRealEntry _ plane, outImagEntry _ plane,
        acEntry _ plane, bdEntry _ plane, adEntry _ plane, bcEntry _ plane, maskRe, maskIm,
        specRealEntry b c f n row channel bin frame, specImagEntry b c f n row channel bin frame]
      rfl

def withoutDc (z : Tensor (Complex64 K)) : Tensor (Complex64 K) :=
  .build z.shape fun index => if index.getD 2 0 = 0 then 0 else z.get index

/-- Under the mask that is one everywhere, only the DC bin is lost. -/
theorem maskedSpectrum_one (config : Config) {mask : Tensor K} {z : Tensor (Complex64 K)}
    {B N : Nat} (maskShape : mask.shape = [B, N, config.bins * config.audioChannels * 2])
    (shape : z.shape = [B, config.audioChannels, config.bins, N])
    (one : ∀ b n f c, b < B → n < N → f < config.bins → c < config.audioChannels →
      mask.get [b, n, feature config.audioChannels f c 0] = 1 ∧
      mask.get [b, n, feature config.audioChannels f c 1] = 0) :
    maskedSpectrum config mask (z.map Complex64.re) (z.map Complex64.im) =
      .ok (withoutDc z) := by
  obtain ⟨y, masked, yShape, yEntry⟩ := maskedSpectrum_spec config maskShape
    (show (z.map Complex64.re).shape = _ from shape)
    (show (z.map Complex64.im).shape = _ from shape)
  rw [masked]
  congr 1
  have same : y.shape = (withoutDc z).shape := yShape.trans shape.symm
  apply Tensor.ext_get same
  intro index within
  rw [yShape] at within
  have inside : Within index z.shape := shape ▸ within
  obtain ⟨b, last, row, others, rfl⟩ := List.forall₂_cons_right_iff.mp within
  obtain ⟨c, f, n, rfl, channel, bin, frame⟩ := Tensor.within_three others
  obtain ⟨re, im⟩ := one b n f c row frame bin channel
  rw [yEntry b c f n row channel bin frame, withoutDc, Tensor.get_build _ inside,
    Tensor.get_map _ inside, Tensor.get_map _ inside, re, im]
  have third : [b, c, f, n].getD 2 0 = f := rfl
  rw [third]
  split
  · rfl
  · simp [Complex64.mul]

end

/-- The layout of the features is one layout: the flattening, the bands at both ends and the
mask agree on where each part of each channel of each bin is. -/
theorem mask_layout {K : Type} [Field K] [LinearOrder K] (kernels : Kernels K) {config : Config}
    (checked : config.check = .ok ()) (bandSplit : BandSplit config K)
    (estimator : MaskEstimator config K) (B N : Nat) :
    (∀ real imag : Tensor K, real.shape = [B, config.audioChannels, config.bins, N] →
      imag.shape = [B, config.audioChannels, config.bins, N] →
      ∃ flat, interleave real imag = .ok flat ∧
        flat.shape = [B, N, config.bins * config.audioChannels * 2] ∧
        ∀ b c f n, b < B → c < config.audioChannels → f < config.bins → n < N →
          flat.get [b, n, feature config.audioChannels f c 0] = real.get [b, c, f, n] ∧
          flat.get [b, n, feature config.audioChannels f c 1] = imag.get [b, c, f, n]) ∧
    (∀ k < config.bins * config.audioChannels * 2,
      (∃! place : Nat × Nat × Nat,
        (place.1 < config.bins ∧ place.2.1 < config.audioChannels ∧ place.2.2 < 2) ∧
          feature config.audioChannels place.1 place.2.1 place.2.2 = k) ∧
      ∃! place : Nat × Nat, ∃ width, config.bandFeatures[place.1]? = some width ∧
        place.2 < width ∧ (config.bandFeatures.take place.1).sum + place.2 = k) ∧
    (∀ x : Tensor K, x.shape = [B, N, config.bins * config.audioChannels * 2] →
      ∃ y, bandSplit.forward kernels x = .ok y ∧
        y.shape = [B, N, config.bands.length, config.dim] ∧
        ∀ i band width, bandSplit.bands[i]? = some band → config.bandFeatures[i]? = some width →
          ∀ b n d, b < B → n < N → d < config.dim → y.get [b, n, i, d] =
            splitValue kernels band
              (features x [b, n] (config.bandFeatures.take i).sum width) d) ∧
    (∀ x : Tensor K, x.shape = [B, N, config.bands.length, config.dim] →
      ∃ y, estimator.forward kernels x = .ok y ∧
        y.shape = [B, N, config.bins * config.audioChannels * 2] ∧
        ∀ i band width, estimator.bands[i]? = some band → config.bandFeatures[i]? = some width →
          ∀ b n j, b < B → n < N → j < width →
            y.get [b, n, (config.bandFeatures.take i).sum + j] =
              maskValue kernels band width (x.row [b, n, i]) j) ∧
    (∀ mask real imag : Tensor K,
      mask.shape = [B, N, config.bins * config.audioChannels * 2] →
      real.shape = [B, config.audioChannels, config.bins, N] →
      imag.shape = [B, config.audioChannels, config.bins, N] →
      ∃ z, (∀ fourier stft samples, apply fourier stft config mask real imag samples =
          stft.inverse fourier z samples true) ∧
        z.shape = [B, config.audioChannels, config.bins, N] ∧
        ∀ b c f n, b < B → c < config.audioChannels → f < config.bins → n < N →
          z.get [b, c, f, n] = if f = 0 then 0 else
            Complex64.mul ⟨real.get [b, c, f, n], imag.get [b, c, f, n]⟩
              ⟨mask.get [b, n, feature config.audioChannels f c 0],
                mask.get [b, n, feature config.audioChannels f c 1]⟩) ∧
    ∀ (mask : Tensor K) (z : Tensor (Complex64 K)),
      mask.shape = [B, N, config.bins * config.audioChannels * 2] →
      z.shape = [B, config.audioChannels, config.bins, N] →
      (∀ b n f c, b < B → n < N → f < config.bins → c < config.audioChannels →
        mask.get [b, n, feature config.audioChannels f c 0] = 1 ∧
        mask.get [b, n, feature config.audioChannels f c 1] = 0) →
      maskedSpectrum config mask (z.map Complex64.re) (z.map Complex64.im) =
          .ok (withoutDc z) ∧
        ∀ fourier stft samples,
          apply fourier stft config mask (z.map Complex64.re) (z.map Complex64.im) samples =
            stft.inverse fourier (withoutDc z) samples true := by
  have total := bandFeatures_sum checked
  have nonempty : config.bands ≠ [] := by
    intro empty
    simp [Config.check, empty, Config.bins] at checked
  refine ⟨fun real imag realShape imagShape => interleave_spec realShape imagShape, ?_, ?_, ?_,
    ?_, ?_⟩
  · intro k below
    exact ⟨feature_unique below, band_unique (total ▸ below)⟩
  · intro x shape
    exact bandSplit.forward_spec kernels nonempty (total ▸ shape)
  · intro x shape
    rw [← total]
    exact estimator.forward_spec kernels nonempty shape
  · intro mask real imag maskShape realShape imagShape
    obtain ⟨z, masked, zShape, zEntry⟩ :=
      maskedSpectrum_spec config maskShape realShape imagShape
    refine ⟨z, fun fourier stft samples => ?_, zShape, zEntry⟩
    simp only [apply, masked, bind, Except.bind]
  · intro mask z maskShape shape one
    have masked := maskedSpectrum_one config maskShape shape one
    refine ⟨masked, fun fourier stft samples => ?_⟩
    simp only [apply, masked, bind, Except.bind]

def stereoConfig : Config where
  dim := 1
  audioChannels := 2
  nFft := 4
  hop := 2
  bands := [1, 2]
  maskExpansion := 1

def restKernels : Kernels ℚ where
  rmsNorm values _ := values
  tanh v := v
  sigmoid v := 1 / 2 + v / 4
  rmsNorm_length _ _ := rfl

def summing (chin chout : Nat) : Linear ℚ where
  chin := chin
  chout := chout
  weight := .build [chin, chout] fun _ => 1
  weightShape := rfl
  bias := none
  biasShape _ is := by cases is

def oneNorm (width : Nat) : RmsNorm ℚ where
  width := width
  gamma := .build [width] fun _ => 1
  gammaShape := rfl

def stereoSplit : BandSplit stereoConfig ℚ where
  bands := [(oneNorm 4, summing 4 1), (oneNorm 8, summing 8 1)]
  fits := .cons ⟨rfl, rfl, rfl⟩ (.cons ⟨rfl, rfl, rfl⟩ .nil)

def stereoEstimator : MaskEstimator stereoConfig ℚ where
  bands := [(summing 1 1, summing 1 8), (summing 1 1, summing 1 16)]
  fits := .cons ⟨rfl, rfl, rfl, rfl⟩ (.cons ⟨rfl, rfl, rfl, rfl⟩ .nil)

def stereoSpectrum : Tensor (Complex64 ℚ) where
  shape := [1, 2, 3, 2]
  data := (List.range 12).map fun k => ⟨(k : Nat), -(k : Nat)⟩
  size := rfl

def counted : Tensor ℚ where
  shape := [1, 2, 12]
  data := (List.range 24).map fun k => (k : Nat)
  size := rfl

def hidden : Tensor ℚ where
  shape := [1, 2, 2, 1]
  data := [1, 2, 3, 4]
  size := rfl

def evenMask (re im : ℚ) : Tensor ℚ where
  shape := [1, 2, 12]
  data := (List.replicate 12 [re, im]).flatten
  size := rfl

/-- The last bin of the second channel, in the second frame, is feature 10 and 11; the second
band sums features 4 to 11; a mask of `i` turns a bin, and a mask of ones leaves it. -/
theorem stereo_mask_layout :
    (∃ flat, interleave (stereoSpectrum.map Complex64.re) (stereoSpectrum.map Complex64.im) =
        .ok flat ∧ flat.get [0, 1, 10] = 11 ∧ flat.get [0, 1, 11] = -11) ∧
    (∃! place : Nat × Nat, ∃ width, stereoConfig.bandFeatures[place.1]? = some width ∧
      place.2 < width ∧ (stereoConfig.bandFeatures.take place.1).sum + place.2 = 7) ∧
    (∃ y, stereoSplit.forward restKernels counted = .ok y ∧ y.get [0, 1, 1, 0] = 156) ∧
    (∃ mask, stereoEstimator.forward restKernels hidden = .ok mask ∧ mask.get [0, 1, 7] = 6) ∧
    (∃ z, (∀ fourier stft samples,
        apply fourier stft stereoConfig (evenMask 0 1) (stereoSpectrum.map Complex64.re)
          (stereoSpectrum.map Complex64.im) samples = stft.inverse fourier z samples true) ∧
      z.get [0, 1, 2, 1] = ⟨11, 11⟩) ∧
    maskedSpectrum stereoConfig (evenMask 1 0) (stereoSpectrum.map Complex64.re)
        (stereoSpectrum.map Complex64.im) = .ok (withoutDc stereoSpectrum) := by
  obtain ⟨paired, places, split, estimated, masked, unit⟩ :=
    mask_layout restKernels (show stereoConfig.check = .ok () from rfl) stereoSplit
      stereoEstimator 1 2
  refine ⟨?_, ?_, ?_, ?_, ?_, ?_⟩
  · obtain ⟨flat, done, -, entries⟩ :=
      paired (stereoSpectrum.map Complex64.re) (stereoSpectrum.map Complex64.im) rfl rfl
    obtain ⟨real, imag⟩ := entries 0 1 2 1 (by decide) (by decide) (by decide) (by decide)
    exact ⟨flat, done, real.trans (by decide +kernel), imag.trans (by decide +kernel)⟩
  · exact (places 7 (by decide)).2
  · obtain ⟨y, done, -, entries⟩ := split counted rfl
    have here := entries 1 _ _ rfl rfl 0 1 0 (by decide) (by decide) (by decide)
    exact ⟨y, done, here.trans (by decide +kernel)⟩
  · obtain ⟨mask, done, -, entries⟩ := estimated hidden rfl
    have here := entries 1 _ _ rfl rfl 0 1 3 (by decide) (by decide) (by decide)
    exact ⟨mask, done, here.trans (by decide +kernel)⟩
  · obtain ⟨z, applied, -, entries⟩ := masked (evenMask 0 1) (stereoSpectrum.map Complex64.re)
      (stereoSpectrum.map Complex64.im) rfl rfl rfl
    have here := entries 0 1 2 1 (by decide) (by decide) (by decide) (by decide)
    exact ⟨z, applied, here.trans (by decide +kernel)⟩
  · refine (unit (evenMask 1 0) stereoSpectrum rfl rfl fun b n f c row frame bin channel => ?_).1
    obtain rfl : b = 0 := Nat.lt_one_iff.mp row
    have each : ∀ n < 2, ∀ f < 3, ∀ c < 2, (evenMask 1 0).get [0, n, feature 2 f c 0] = 1 ∧
        (evenMask 1 0).get [0, n, feature 2 f c 1] = 0 := by decide +kernel
    exact each n frame f bin c channel

end Roformer

end Stemd.Mlx
