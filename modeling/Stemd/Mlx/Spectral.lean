import Stemd.Mlx.Stft

/-! The spectrogram that the model was traced with.

On the way in the track is reflected by three half-hops and up to whole hops, the top
frequency bin is dropped, and only the frames that cover the track are kept. On the way out
a silent bin and two silent frames at either end are put back before the inversion. -/

set_option autoImplicit false

namespace Stemd.Mlx

open Stemd.Semantics

/-- `N_FFT` -/
def demucsFft : Nat := 4096

/-- `HOP` -/
def demucsHop : Nat := 1024

def Complex64.sub {K : Type} [Sub K] (a b : Complex64 K) : Complex64 K :=
  ⟨a.re - b.re, a.im - b.im⟩

structure Spectral (K : Type) where
  stft : Stft K
  hop : Nat

section

variable {K : Type} [Field K]

def Spectral.new (cosine : Nat → Nat → K) : Spectral K where
  stft := .new cosine demucsFft demucsHop
  hop := demucsHop

/-- Drop the phase of the bin at zero, which an inverse transform is defined to ignore. -/
def realDc (z : Tensor (Complex64 K)) : Except SpectralError (Tensor (Complex64 K)) := do
  let (_, bins) ← lastAxis z
  if bins = 0 then throw .array
  let selector : Tensor K := ⟨[bins], (List.replicate bins 0).set 0 1, by simp⟩
  let selected ← fitting ((z.map Complex64.im).zipWith (· * ·) selector)
  let phase := selected.map fun v : K => (⟨0, v⟩ : Complex64 K)
  fitting (z.zipWith Complex64.sub phase)

/-- `[B, C, T] -> [B, C, F - 1, ceil(T / hop)]` -/
def Spectral.forward (fourier : Fourier K) (spectral : Spectral K) (x : Tensor K) :
    Except SpectralError (Tensor (Complex64 K)) := do
  let (_, samples) ← lastAxis x
  let frames := divCeil samples spectral.hop
  let pad : Int := (spectral.hop / 2 * 3 : Nat)
  let x ← reflectPad x pad (pad + frames * spectral.hop - samples)
  let z ← spectral.stft.forward fourier x true
  let bins := z.shape.getD (z.shape.length - 2) 0
  -- Drop the Nyquist bin, then keep the frames covering the input.
  let z ← fitting (z.slice 2 0 (bins - 1))
  fitting (z.slice 3 2 (2 + frames))

def sliceLast (x : Tensor K) (start stop : Int) : Except SpectralError (Tensor K) := do
  let (axis, _) ← lastAxis x
  fitting (x.takeAxis ((List.range (stop - start).toNat).map fun k : Nat => start + k) axis)

variable [LinearOrder K]

def Spectral.istft (fourier : Fourier K) (spectral : Spectral K) (z : Tensor (Complex64 K))
    (length : Int) : Except SpectralError (Tensor K) :=
  if demucsFft % spectral.hop ≠ 0 then .error (.uneven spectral.hop)
  else invertFrames fourier spectral.stft realDc z
    (fun frames => max (length + demucsFft) (((frames : Int) - 1) * spectral.hop + demucsFft))
    (demucsFft / 2 : Nat) length

/-- `[..., F - 1, N] -> [..., length]`: a silent bin back on top, two silent frames at each
end, and the inversion of that. -/
def Spectral.inverse (fourier : Fourier K) (spectral : Spectral K) (z : Tensor (Complex64 K))
    (length : Int) : Except SpectralError (Tensor K) := do
  let z ← fitting (z.pad (List.replicate (z.shape.length - 2) (0, 0) ++ [(0, 1), (2, 2)]))
  let pad : Int := (spectral.hop / 2 * 3 : Nat)
  let full := spectral.hop * divCeil length spectral.hop + 2 * pad
  let x ← spectral.istft fourier z full
  sliceLast x pad (pad + length)

end

/-- Where in the track the first sample of a kept frame lies. It can be before the track. -/
def origin (f : Int) : Int := f * 1024 - 1536

/-- The sample of a track of `T` that stands at a place: mirrored outside. -/
def mirror (T : Nat) (place : Int) : Nat :=
  if place < 0 then (-place).toNat
  else if place < T then place.toNat
  else (2 * T - 2 - place).toNat

section

variable {K : Type} [Field K]

def Spectral.cut (spectral : Spectral K) (x : Tensor K) (T : Nat) (row : List Nat) (f : Nat) :
    List K :=
  (List.range 4096).map fun k : Nat =>
    x.get (row ++ [mirror T (origin f + k)]) * spectral.stft.window.get [k]

def Spectral.added (spectral : Spectral K) (samples : List K) (f : Int) (t : Nat) : K :=
  if origin f ≤ t ∧ t < origin f + 4096 then
    samples.getD (t - origin f).toNat 0 * spectral.stft.window.get [(t - origin f).toNat]
  else 0

def Spectral.edges (fourier : Fourier K) (spectral : Spectral K) (frames t : Nat) : K :=
  let silence := fourier.irfft 4096 (List.replicate 2049 0)
  spectral.added silence (-2) t + spectral.added silence (-1) t +
    (spectral.added silence frames t + spectral.added silence (frames + 1) t)

def cleanColumn (z : Tensor (Complex64 K)) (row : List Nat) (f : Nat) : List (Complex64 K) :=
  ((List.range 2048).map fun b =>
    if b = 0 then ⟨(z.get (row ++ [b, f])).re, 0⟩ else z.get (row ++ [b, f])) ++ [0]

end

theorem Complex64.eq_of {K : Type} {a b : Complex64 K} (re : a.re = b.re) (im : a.im = b.im) :
    a = b := by
  cases a
  cases b
  cases re
  cases im
  rfl

section

variable {K : Type} [Field K]

def withoutPhase (b : Nat) (v : Complex64 K) : Complex64 K := if b = 0 then ⟨v.re, 0⟩ else v

theorem realDc_spec {z : Tensor (Complex64 K)} {rows frames bins : Nat}
    (shape : z.shape = [rows, frames, bins]) (nonempty : 0 < bins) :
    ∃ y, realDc z = .ok y ∧ y.shape = [rows, frames, bins] ∧
      ∀ r f b, r < rows → f < frames → b < bins →
        y.get [r, f, b] = withoutPhase b (z.get [r, f, b]) := by
  obtain ⟨selector, selectorIs⟩ : ∃ selector : Tensor K, selector =
    ⟨[bins], (List.replicate bins 0).set 0 1, by simp⟩ := ⟨_, rfl⟩
  have selectorShape : selector.shape = [bins] := by rw [selectorIs]
  have fits : Tensor.broadcast (z.map Complex64.im).shape selector.shape =
      some [rows, frames, bins] := by
    rw [Tensor.map_shape, shape, selectorShape]
    exact Tensor.broadcast_last [rows, frames] bins
  obtain ⟨selected, multiplied, selectedShape, selectedEntry⟩ := Tensor.zipWith_spec (· * ·) fits
  obtain ⟨y, subtracted, yShape, yEntry⟩ := Tensor.zipWith_self_spec Complex64.sub
    (show (selected.map fun v : K => (⟨0, v⟩ : Complex64 K)).shape = z.shape by
      rw [Tensor.map_shape, selectedShape, shape])
  refine ⟨y, ?_, yShape.trans shape, fun r f b row frame bin => ?_⟩
  · have last : lastAxis z = .ok (2, bins) :=
      lastAxis_eq (show z.shape = [rows, frames] ++ [bins] from shape)
    simp only [realDc, last, bind, Except.bind]
    rw [if_neg (by omega)]
    simp only [← selectorIs, multiplied, subtracted, fitting]
  · have here : Within [r, f, b] [rows, frames, bins] := .cons row (.cons frame (.cons bin .nil))
    have inside : Within [r, f, b] z.shape := shape ▸ here
    have aligned : Tensor.align selector.shape [r, f, b] = [b] := by
      rw [selectorShape]
      exact Tensor.align_last [r, f] bin
    have chosen : selector.get [b] = if b = 0 then 1 else 0 := by
      subst selectorIs
      simp only [Tensor.get, position, List.prod_nil, Nat.mul_one, Nat.add_zero]
      rw [List.getD_eq_getElem _ _ (by simpa using bin), List.getElem_set]
      simp [eq_comm]
    have phase : selected.get [r, f, b] = (z.get [r, f, b]).im * if b = 0 then 1 else 0 := by
      rw [selectedEntry _ here, aligned, chosen, Tensor.map_shape, Tensor.align_self inside,
        Tensor.get_map Complex64.im inside]
    rw [yEntry _ inside, Tensor.get_map _ (selectedShape ▸ here), phase, withoutPhase]
    split
    · exact Complex64.eq_of (sub_zero _) (by simp [Complex64.sub])
    · exact Complex64.eq_of (sub_zero _) (by simp [Complex64.sub])

@[simp] theorem Spectral.new_hop (cosine : Nat → Nat → K) :
    (Spectral.new cosine).hop = 1024 := rfl

@[simp] theorem Spectral.new_nFft (cosine : Nat → Nat → K) :
    (Spectral.new cosine).stft.nFft = 4096 := rfl

@[simp] theorem Spectral.new_stft_hop (cosine : Nat → Nat → K) :
    (Spectral.new cosine).stft.hop = 1024 := rfl

@[simp] theorem Spectral.new_bins (cosine : Nat → Nat → K) :
    (Spectral.new cosine).stft.bins = 2049 := by
  rw [Stft.bins, Spectral.new_nFft]

def frameCount (T : Nat) : Nat := (T + 1023) / 1024

theorem divCeil_hop (T : Nat) : divCeil T 1024 = frameCount T := by
  have numerator : ((T : Int) + (1024 : Nat) - 1).toNat = T + 1023 := by omega
  have here : divCeil T (1024 : Nat) = frameCount T := by
    rw [divCeil_eq (by omega), numerator, frameCount]
  exact here

theorem frameCount_spec (T : Nat) : T ≤ frameCount T * 1024 ∧ frameCount T * 1024 < T + 1024 := by
  unfold frameCount
  omega

theorem lt_of_reflectPad {x padded : Tensor K} {lead : List Nat} {n : Nat}
    (shape : x.shape = lead ++ [n]) {left right : Int}
    (accepted : reflectPad x left right = .ok padded) : left < n ∧ right < n := by
  by_contra refused
  simp only [reflectPad, lastAxis_eq shape, bind, Except.bind] at accepted
  rw [if_pos (by omega)] at accepted
  cases accepted

theorem reflectIndex_eq_mirror {T p : Nat} :
    reflectIndex 1536 T p = mirror T ((p : Int) - 1536) := by
  unfold reflectIndex mirror
  split_ifs <;> omega

theorem Spectral.frame_eq_cut (cosine : Nat → Nat → K) {x padded centred : Tensor K}
    {lead row : List Nat} {T width f : Nat} (outer : Within row lead)
    (paddedEntry : ∀ i t, Within i lead → t < width →
      padded.get (i ++ [t]) = x.get (i ++ [reflectIndex 1536 T t]))
    (centredEntry : ∀ i t, Within i lead → t < 2048 + width + 2048 →
      centred.get (i ++ [t]) = padded.get (i ++ [reflectIndex 2048 width t]))
    (inside : f * 1024 + 4096 ≤ width) :
    (Spectral.new cosine).stft.frame centred row (2 + f) =
      (Spectral.new cosine).cut x T row f := by
  simp only [Stft.frame, Spectral.cut, Spectral.new_nFft, Spectral.new_stft_hop]
  apply List.map_congr_left
  intro k member
  have sample := List.mem_range.mp member
  have clear : reflectIndex 2048 width ((2 + f) * 1024 + k) = f * 1024 + k := by
    unfold reflectIndex
    split_ifs <;> omega
  have place : ((f * 1024 + k : Nat) : Int) - 1536 = origin f + k := by
    unfold origin
    omega
  rw [centredEntry row _ outer (by omega), clear, paddedEntry row _ outer (by omega),
    reflectIndex_eq_mirror, place]

theorem Spectral.forward_spec (fourier : Fourier K) (cosine : Nat → Nat → K) {x : Tensor K}
    {B C T : Nat} (shape : x.shape = [B, C, T]) (left : 1536 < T)
    (right : 1536 + (frameCount T * 1024 - T) < T) :
    ∃ z, (Spectral.new cosine).forward fourier x = .ok z ∧
      z.shape = [B, C, 2048, frameCount T] ∧
      ∀ b c bin f, b < B → c < C → bin < 2048 → f < frameCount T → z.get [b, c, bin, f] =
        (fourier.rfft ((Spectral.new cosine).cut x T [b, c] f)).getD bin 0 := by
  obtain ⟨whole, short⟩ := frameCount_spec T
  have shape' : x.shape = [B, C] ++ [T] := shape
  obtain ⟨padded, reflected, paddedShape, paddedEntry⟩ := reflectPad_spec shape' left right
  have amount : ((1536 + (frameCount T * 1024 - T) : Nat) : Int) =
      1536 + (frameCount T : Int) * 1024 - T := by omega
  rw [amount, Nat.cast_ofNat] at reflected
  generalize widthIs : 1536 + T + (1536 + (frameCount T * 1024 - T)) = width
    at paddedShape paddedEntry
  obtain ⟨centred, centring, centredShape, centredEntry⟩ :=
    reflectPad_spec paddedShape (show 2048 < width by omega) (show 2048 < width by omega)
  have centring' : (Spectral.new cosine).stft.centre padded true = .ok centred := by
    rw [Stft.centre, if_pos rfl, Spectral.new_nFft]
    exact centring
  obtain ⟨z, forward, zShape, zEntry⟩ := Stft.forward_spec fourier (Spectral.new cosine).stft
    centring' centredShape (by rw [Spectral.new_nFft]; omega)
  have count : (2048 + width + 2048 - 4096) / 1024 + 1 = frameCount T + 4 := by omega
  simp only [Spectral.new_nFft, Spectral.new_stft_hop, Spectral.new_bins, count] at zShape zEntry
  obtain ⟨low, cut, lowShape, lowEntry⟩ :=
    Tensor.slice_spec [B, C] 2049 [frameCount T + 4] zShape (Int.le_refl 0)
      (show (0 : Int) ≤ (2049 : Nat) - 1 by omega) (by omega)
  obtain ⟨y, trimmed, yShape, yEntry⟩ :=
    Tensor.slice_spec [B, C, 2048] (frameCount T + 4) [] lowShape
      (show (0 : Int) ≤ 2 by omega) (show (2 : Int) ≤ 2 + frameCount T by omega) (by omega)
  have cut' : z.slice 2 0 (2049 - 1) = some low := cut
  have trimmed' : low.slice 3 2 (2 + frameCount T) = some y := trimmed
  refine ⟨y, ?_, ?_, fun b c bin f row channel inside frame => ?_⟩
  · have last : lastAxis x = .ok (2, T) := lastAxis_eq shape'
    have top : z.shape.getD (z.shape.length - 2) 0 = 2049 := by rw [zShape]; rfl
    have pad : ((1024 / 2 * 3 : Nat) : Int) = 1536 := rfl
    simp only [Spectral.forward, last, Spectral.new_hop, pad, Nat.cast_ofNat, divCeil_hop,
      reflected, forward, top, cut', trimmed', fitting, bind, Except.bind]
  · rw [yShape]
    simp
  · have first := yEntry [b, c, bin] f [] (.cons row (.cons channel (.cons inside .nil)))
      (by omega) .nil
    have second := lowEntry [b, c] bin [2 + f] (.cons row (.cons channel .nil)) (by omega)
      (.cons (by omega) .nil)
    have third := zEntry [b, c] bin (2 + f) (.cons row (.cons channel .nil)) (by omega) (by omega)
    rw [Spectral.frame_eq_cut cosine (.cons row (.cons channel .nil)) paddedEntry centredEntry
      (by omega)] at third
    rw [Int.toNat_zero, Nat.zero_add] at second
    exact first.trans (second.trans third)

theorem restore_spec {z : Tensor (Complex64 K)} {lead : List Nat} {frames : Nat}
    (shape : z.shape = lead ++ [2048, frames]) :
    ∃ y, z.pad (List.replicate (z.shape.length - 2) (0, 0) ++ [(0, 1), (2, 2)]) = some y ∧
      y.shape = lead ++ [2049, frames + 4] ∧ ∀ i b f, Within i lead → b < 2049 → f < frames + 4 →
        y.get (i ++ [b, f]) =
          if b < 2048 ∧ 2 ≤ f ∧ f < 2 + frames then z.get (i ++ [b, f - 2]) else 0 := by
  have rank : z.shape.length - 2 = lead.length := by rw [shape]; simp
  have nonneg : ∀ around ∈ List.replicate lead.length ((0, 0) : Int × Int) ++ [(0, 1), (2, 2)],
      0 ≤ around.1 ∧ 0 ≤ around.2 := by
    intro around member
    rcases List.mem_append.mp member with front | last
    · rw [List.eq_of_mem_replicate front]
      decide
    · have sides : ∀ side ∈ ([(0, 1), (2, 2)] : List (Int × Int)), 0 ≤ side.1 ∧ 0 ≤ side.2 := by
        decide
      exact sides around last
  obtain ⟨y, padded, yShape, yEntry⟩ := Tensor.pad_spec (by rw [shape]; simp) nonneg
  have widened : Tensor.paddedShape
      (List.replicate lead.length ((0, 0) : Int × Int) ++ [(0, 1), (2, 2)]) z.shape =
        lead ++ [2049, frames + 4] := by
    rw [shape, Tensor.paddedShape_lead]
    simp only [Tensor.paddedShape, List.zipWith_cons_cons, List.zipWith_nil_left]
    congr 3
    change 2 + frames + 2 = frames + 4
    omega
  rw [widened] at yShape yEntry
  refine ⟨y, by rw [rank]; exact padded, yShape, fun i b f outer bin frame => ?_⟩
  rw [yEntry _ (within_append outer (.cons bin (.cons frame .nil))), shape, Tensor.unpad_lead outer]
  simp only [Tensor.unpad, show (0 : Int).toNat = 0 from rfl, show (2 : Int).toNat = 2 from rfl]
  by_cases low : b < 2048
  · by_cases kept : 2 ≤ f ∧ f < 2 + frames
    · rw [if_pos (by omega), if_pos kept, if_pos ⟨low, kept⟩]
      rfl
    · rw [if_pos (by omega), if_neg kept, if_neg fun both => kept both.2]
      rfl
  · rw [if_neg (by omega), if_neg fun both => low both.1]
    rfl

theorem withoutPhase_zero (b : Nat) : withoutPhase b (0 : Complex64 K) = 0 := by
  unfold withoutPhase
  split <;> rfl

theorem restored_column {z restored : Tensor (Complex64 K)} {lead row : List Nat} {frames : Nat}
    (outer : Within row lead)
    (entry : ∀ i b f, Within i lead → b < 2049 → f < frames + 4 → restored.get (i ++ [b, f]) =
      if b < 2048 ∧ 2 ≤ f ∧ f < 2 + frames then z.get (i ++ [b, f - 2]) else 0)
    {f : Nat} (frame : f < frames) :
    column restored withoutPhase row 2049 (f + 2) = cleanColumn z row f := by
  have top : withoutPhase 2048 (restored.get (row ++ [2048, f + 2])) = 0 := by
    rw [entry row 2048 _ outer (by omega) (by omega), if_neg (by omega), withoutPhase_zero]
  have below : ∀ b ∈ List.range 2048, withoutPhase b (restored.get (row ++ [b, f + 2])) =
      if b = 0 then ⟨(z.get (row ++ [b, f])).re, 0⟩ else z.get (row ++ [b, f]) := by
    intro b member
    have bin := List.mem_range.mp member
    rw [entry row b _ outer (by omega) (by omega), if_pos (by omega), Nat.add_sub_cancel]
    rfl
  have bins : List.range 2049 = List.range 2048 ++ [2048] := List.range_succ
  rw [column, bins, List.map_append, List.map_congr_left below, List.map_singleton, top]
  rfl

theorem silent_column {z : Tensor (Complex64 K)} {row : List Nat} {bins f : Nat}
    (silent : ∀ b < bins, z.get (row ++ [b, f]) = 0) :
    column z withoutPhase row bins f = List.replicate bins 0 := by
  refine List.eq_replicate_iff.mpr ⟨by rw [column, List.length_map, List.length_range], ?_⟩
  intro v member
  obtain ⟨b, bin, rfl⟩ := List.mem_map.mp member
  rw [silent b (List.mem_range.mp bin), withoutPhase_zero]

theorem Spectral.placed_eq_added (cosine : Nat → Nat → K) (samples : List K) (f t : Nat) :
    (Spectral.new cosine).stft.placed samples f (2048 + (1536 + t)) =
      (Spectral.new cosine).added samples ((f : Int) - 2) t := by
  have begins : origin ((f : Int) - 2) = f * 1024 - 3584 := by
    unfold origin
    omega
  have place : 2048 + (1536 + t) - f * 1024 = (t - origin ((f : Int) - 2)).toNat := by omega
  simp only [Stft.placed, Spectral.added, Spectral.new_nFft, Spectral.new_stft_hop, place]
  exact if_congr (by omega) rfl rfl

/-- Kept frames are added back where they were cut from. -/
theorem Spectral.inverse_spec [LinearOrder K] (fourier : Fourier K) (cosine : Nat → Nat → K)
    {z : Tensor (Complex64 K)} {lead : List Nat} {T : Nat}
    (shape : z.shape = lead ++ [2048, frameCount T]) :
    ∃ y, (Spectral.new cosine).inverse fourier z T = .ok y ∧ y.shape = lead ++ [T] ∧
      ∀ i t, Within i lead → t < T → y.get (i ++ [t]) =
        (∑ f ∈ Finset.range (frameCount T), (Spectral.new cosine).added
            (fourier.irfft 4096 (cleanColumn z i f)) f t +
          (Spectral.new cosine).edges fourier (frameCount T) t) /
        max (windowSum (Spectral.new cosine).stft.window 4096 1024 (frameCount T + 4)
          (3584 + t)) normFloor := by
  obtain ⟨whole, short⟩ := frameCount_spec T
  have counted := divCeil_hop T
  obtain ⟨restored, padded, restoredShape, restoredEntry⟩ := restore_spec shape
  generalize frameCount T = frames at *
  obtain ⟨x, inverted, xShape, xEntry⟩ :=
    invertFrames_spec fourier (Spectral.new cosine).stft (by simp) (by simp) realDc withoutPhase
      restoredShape (by omega) (fun flat flatShape => realDc_spec flatShape (by omega))
      (fun count => max (((1024 * frames + 3072 : Nat) : Int) + demucsFft)
        (((count : Int) - 1) * 1024 + demucsFft))
      (show _ = ((1024 * frames + 7168 : Nat) : Int) by
        simp only [demucsFft]
        omega)
      (show 2048 + (1024 * frames + 3072) ≤ 1024 * frames + 7168 by omega)
  have istft : (Spectral.new cosine).istft fourier restored (1024 * frames + 3072 : Nat) =
      .ok x := by
    rw [Spectral.istft, if_neg (by simp [demucsFft])]
    exact inverted
  have indices : ∀ n ∈ (List.range T).map fun k : Nat => (1536 : Int) + k,
      0 ≤ n ∧ n < (1024 * frames + 3072 : Nat) := by
    intro n member
    obtain ⟨k, below, rfl⟩ := List.mem_map.mp member
    have := List.mem_range.mp below
    omega
  obtain ⟨y, taken, yShape, yEntry⟩ := Tensor.takeAxis_spec lead _ [] xShape _ indices
  rw [List.length_map, List.length_range] at yShape yEntry
  refine ⟨y, ?_, yShape, fun i t outer below => ?_⟩
  · have full : (1024 : Int) * frames + 2 * 1536 = (1024 * frames + 3072 : Nat) := by omega
    have cropped : ((1536 : Int) + T - 1536).toNat = T := by omega
    have pad : ((1024 / 2 * 3 : Nat) : Int) = 1536 := rfl
    simp only [Spectral.inverse, padded, Spectral.new_hop, pad, Nat.cast_ofNat, counted, full,
      istft, sliceLast, lastAxis_eq xShape, cropped, taken, fitting, bind, Except.bind]
  · have source : (((List.range T).map fun k : Nat => (1536 : Int) + k).getD t 0).toNat =
        1536 + t := by
      rw [List.getD_eq_getElem _ _ (by simpa using below), List.getElem_map, List.getElem_range]
      omega
    have here := yEntry i t [] outer below .nil
    rw [source] at here
    refine here.trans ((xEntry i (1536 + t) outer (by omega)).trans ?_)
    have place : 2048 + (1536 + t) = 3584 + t := by omega
    have silent : ∀ f, f < frames + 4 → f < 2 ∨ 2 + frames ≤ f →
        column restored withoutPhase i 2049 f = List.replicate 2049 0 := by
      intro f frame outside
      refine silent_column fun b bin => ?_
      rw [restoredEntry i b f outer bin frame, if_neg (by omega)]
    have numerator : ∑ f ∈ Finset.range (frames + 4), (Spectral.new cosine).added
          (fourier.irfft 4096 (column restored withoutPhase i 2049 f)) ((f : Int) - 2) t =
        ∑ f ∈ Finset.range frames, (Spectral.new cosine).added
            (fourier.irfft 4096 (cleanColumn z i f)) f t +
          (Spectral.new cosine).edges fourier frames t := by
      have kept : ∀ f ∈ Finset.range frames, (Spectral.new cosine).added (fourier.irfft 4096
            (column restored withoutPhase i 2049 (f + 1 + 1))) (((f + 1 + 1 : Nat) : Int) - 2) t =
          (Spectral.new cosine).added (fourier.irfft 4096 (cleanColumn z i f)) f t := by
        intro f member
        have back : ((f + 1 + 1 : Nat) : Int) - 2 = f := by omega
        rw [restored_column outer restoredEntry (Finset.mem_range.mp member), back]
      have first : ((0 : Nat) : Int) - 2 = -2 := rfl
      have second : ((0 + 1 : Nat) : Int) - 2 = -1 := rfl
      have third : ((frames + 2 : Nat) : Int) - 2 = frames := by omega
      have fourth : ((frames + 3 : Nat) : Int) - 2 = frames + 1 := by omega
      rw [Finset.sum_range_succ, Finset.sum_range_succ, Finset.sum_range_succ',
        Finset.sum_range_succ', Finset.sum_congr rfl kept, silent 0 (by omega) (by omega),
        silent (0 + 1) (by omega) (by omega), silent (frames + 2) (by omega) (by omega),
        silent (frames + 3) (by omega) (by omega), first, second, third, fourth, Spectral.edges]
      ring
    simp only [Spectral.placed_eq_added]
    simp only [Spectral.new_nFft, Spectral.new_stft_hop, place, numerator]

/-- Whenever the track is long enough for its own reflection, both ways go through, keep one
frame a hop and the length of the track, and put every frame where the track has it. -/
theorem spectrogram_bookkeeping [LinearOrder K] (fourier : Fourier K) (cosine : Nat → Nat → K)
    {x padded : Tensor K} {B C T : Nat} (shape : x.shape = [B, C, T])
    (accepted : reflectPad x 1536 (1536 + divCeil T 1024 * 1024 - T) = .ok padded) :
    (∃ z, (Spectral.new cosine).forward fourier x = .ok z ∧
      z.shape = [B, C, 2048, frameCount T] ∧
      ∀ b c bin f, b < B → c < C → bin < 2048 → f < frameCount T → z.get [b, c, bin, f] =
        (fourier.rfft ((Spectral.new cosine).cut x T [b, c] f)).getD bin 0) ∧
    ∀ (lead : List Nat) (z : Tensor (Complex64 K)), z.shape = lead ++ [2048, frameCount T] →
      ∃ y, (Spectral.new cosine).inverse fourier z T = .ok y ∧ y.shape = lead ++ [T] ∧
        ∀ i t, Within i lead → t < T → y.get (i ++ [t]) =
          (∑ f ∈ Finset.range (frameCount T), (Spectral.new cosine).added
              (fourier.irfft 4096 (cleanColumn z i f)) f t +
            (Spectral.new cosine).edges fourier (frameCount T) t) /
          max (windowSum (Spectral.new cosine).stft.window 4096 1024 (frameCount T + 4)
            (3584 + t)) normFloor := by
  obtain ⟨left, right⟩ := lt_of_reflectPad (show x.shape = [B, C] ++ [T] from shape) accepted
  rw [divCeil_hop] at right
  obtain ⟨whole, short⟩ := frameCount_spec T
  constructor
  · exact Spectral.forward_spec fourier cosine shape (by omega) (by omega)
  · intro lead z spectrum
    exact Spectral.inverse_spec fourier cosine spectrum

end

/-- A stand-in for the transforms: a bin is a sample, and a sample the real part of its bin. -/
def copyFourier : Fourier ℚ where
  rfft samples := (List.range (samples.length / 2 + 1)).map fun k => ⟨samples.getD k 0, 0⟩
  irfft n bins := (List.range n).map fun k => (bins.getD k 0).re
  rfft_length _ := by simp

def ramp : Tensor ℚ :=
  .build [1, 2, 2500] fun index => (2500 * index.getD 1 0 + index.getD 2 0 : Nat)

/-- The third frame starts half a hop into the track; under a window of halves, its 600th bin is
half of sample 1112 of the second channel. -/
theorem ramp_bookkeeping : ∃ z y,
    (Spectral.new fun _ _ => (0 : ℚ)).forward copyFourier ramp = .ok z ∧
      z.shape = [1, 2, 2048, 3] ∧ (z.get [0, 1, 600, 2]).re = (2500 + 1112) / 2 ∧
      (Spectral.new fun _ _ => (0 : ℚ)).inverse copyFourier z 2500 = .ok y ∧
      y.shape = [1, 2, 2500] := by
  obtain ⟨padded, accepted, -⟩ :=
    reflectPad_spec (show ramp.shape = [1, 2] ++ [2500] from rfl)
      (show 1536 < 2500 by decide) (show 2108 < 2500 by decide)
  obtain ⟨⟨z, forward, shape, entries⟩, inverse⟩ :=
    spectrogram_bookkeeping copyFourier (fun _ _ => (0 : ℚ)) (B := 1) (C := 2) (T := 2500) rfl
      accepted
  obtain ⟨y, back, length, -⟩ := inverse [1, 2] z shape
  refine ⟨z, y, forward, shape, ?_, back, length⟩
  rw [entries 0 1 600 2 (by decide) (by decide) (by decide) (by decide)]
  decide +kernel

end Stemd.Mlx
