import Stemd.Core.Pcm

/-! Rate conversion around the FFT resampler.

The filter itself is a parameter. It is handed planes allocated here and fills
them, so only their contents and how many frames it wrote are its own. -/

set_option autoImplicit false

namespace Stemd.Core

structure Converted (F : Type) where
  capacity : Nat
  sample : Nat → Nat → F
  written : Nat

/-- Source rate, target rate and input planes; `none` where preparing or running the
filter fails. -/
abbrev Resampler (F : Type) := UInt32 → UInt32 → List (List F) → Option (Converted F)

inductive RateError where
  | zeroTarget
  | zeroChannels
  | filter (source target : UInt32)
  deriving DecidableEq, Repr

variable {F : Type}

def toRate (resampler : Resampler F) (audio : Audio F) (target : UInt32) :
    Except RateError (Audio F) :=
  if audio.sampleRate = target ∨ audio.frames = 0 then .ok audio
  else if target = 0 then .error .zeroTarget
  else if audio.channels = 0 then .error .zeroChannels
  else match resampler audio.sampleRate target audio.data with
    | none => .error (.filter audio.sampleRate target)
    | some converted =>
        let planes := (List.range audio.channels).map fun ch =>
          (List.range converted.capacity).map (converted.sample ch)
        .ok ⟨planes.map (·.take converted.written), target⟩

theorem toRate_shape {resampler : Resampler F} {audio mix : Audio F} {target : UInt32}
    (rectangular : audio.Rectangular) (done : toRate resampler audio target = .ok mix) :
    mix.Rectangular ∧ mix.channels = audio.channels ∧
      (mix.sampleRate = target ∨ audio.frames = 0) := by
  simp only [toRate] at done
  split at done
  · rename_i untouched
    cases done
    exact ⟨rectangular, rfl, untouched⟩
  split at done
  · cases done
  split at done
  · cases done
  split at done
  · cases done
  · rename_i converted _
    cases done
    have lengths : ∀ c ∈ ((List.range audio.channels).map fun ch =>
        (List.range converted.capacity).map (converted.sample ch)).map
          (·.take converted.written), c.length = min converted.written converted.capacity := by
      simp
    refine ⟨fun c member => ?_, by simp [Audio.channels], .inl rfl⟩
    rw [lengths c member, Audio.frames]
    cases planes : ((List.range audio.channels).map fun ch =>
        (List.range converted.capacity).map (converted.sample ch)).map
          (·.take converted.written) with
    | nil => simp [planes] at member
    | cons first rest =>
        exact (lengths first (planes ▸ List.mem_cons_self)).symm

end Stemd.Core
