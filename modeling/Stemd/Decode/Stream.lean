import Mathlib.Data.List.Basic
import Mathlib.Data.Nat.ModEq
import Mathlib.Tactic.Common

/-! What a file decodes to.

A reader from elsewhere finds the track and makes sound of its packets. The sound comes
interleaved and is dealt out to channels, and two of them are kept. -/

set_option autoImplicit false

namespace Stemd.Decode

/-- `data[channel][sample]` -/
structure Decoded (F : Type) where
  data : List (List F)
  sampleRate : UInt32
  deriving DecidableEq

inductive Packet (F : Type) where
  | foreign
  | audio (rate : UInt32) (channels : Nat) (samples : List F)
  | corrupt
  | failed

/-- What the reader makes of a file: it may not know the container, find no track in it or have
no decoder for that. `cut` says that it failed where the packets end. -/
inductive Probed (F : Type) where
  | unknown
  | trackless
  | undecodable
  | track (declaredRate : Option UInt32) (packets : List (Packet F)) (cut : Bool)

structure PlanarSink (F : Type) where
  channels : List (List F)
  sampleRate : UInt32

variable {F : Type}

def Decoded.frames (decoded : Decoded F) : Nat := (decoded.data.head?.map List.length).getD 0

/-- `channels[i % n].push(*sample)` -/
def deal (n : Nat) (channels : List (List F)) (next : F × Nat) : List (List F) :=
  channels.modify (next.2 % n) (· ++ [next.1])

/-- Round robin, as far as the frames are whole. -/
def spread (channels : List (List F)) (samples : List F) : List (List F) :=
  let n := channels.length
  if n = 0 then channels
  else
    let whole := samples.length - samples.length % n
    (samples.take whole).zipIdx.foldl (deal n) channels

namespace PlanarSink

def new (declaredRate : UInt32) : PlanarSink F := ⟨[], declaredRate⟩

def append (sink : PlanarSink F) (rate : UInt32) (count : Nat) (samples : List F) :
    PlanarSink F :=
  let sampleRate := if sink.sampleRate = 0 then rate else sink.sampleRate
  let channels := if sink.channels.isEmpty then List.replicate count [] else sink.channels
  ⟨spread channels samples, sampleRate⟩

def finish (sink : PlanarSink F) (label : String) : Except String (Decoded F) :=
  match sink.channels with
  | [] => .error ("decoded no audio from " ++ label)
  | first :: others =>
    let channels := first :: others
    let frames := first.length
    if first.isEmpty then .error ("decoded no audio from " ++ label)
    else match (channels.map List.length).zipIdx.find? (·.1 ≠ frames) with
      | some (found, channel) =>
        .error (label ++ " decoded ragged: channel " ++ toString channel ++ " has " ++
          toString found ++ " samples where channel 0 has " ++ toString frames)
      | none =>
        let data := match channels.length with
          | 1 => [first, first]
          | 2 => channels
          | _ => channels.take 2
        .ok ⟨data, sink.sampleRate⟩

end PlanarSink

/-- The packets in turn. One that is corrupt is passed over. -/
def drain (sink : PlanarSink F) (cut : Bool) : List (Packet F) → Except String (PlanarSink F)
  | [] => if cut then .error "reading packet" else .ok sink
  | .foreign :: packets => drain sink cut packets
  | .audio rate count samples :: packets => drain (sink.append rate count samples) cut packets
  | .corrupt :: packets => drain sink cut packets
  | .failed :: _ => .error "decoding"

def decodeStream (probed : Probed F) (label : String) : Except String (Decoded F) :=
  match probed with
  | .unknown => .error ("probing " ++ label)
  | .trackless => .error "file contains no default audio track"
  | .undecodable => .error "no decoder for this codec"
  | .track declaredRate packets cut =>
    (drain (.new (declaredRate.getD 0)) cut packets).bind (·.finish label)

/-! ## Channels of one length -/

def Rectangular (channels : List (List F)) : Prop :=
  ∀ first ∈ channels, ∀ second ∈ channels, first.length = second.length

/-- How many of the first `k` samples go to channel `c` of `n`. -/
def share (n k c : Nat) : Nat := (k + n - 1 - c) / n

theorem share_succ {n k c : Nat} (within : c < n) :
    share n (k + 1) c = share n k c + if k % n = c then 1 else 0 := by
  have next : k + 1 + n - 1 - c = (k + n - 1 - c) + 1 := by omega
  -- A channel's share grows when the turn comes round to it.
  have own : n ∣ (k + n - 1 - c) + 1 ↔ k % n = c := by
    rw [show (k + n - 1 - c) + 1 = k + n - c by omega, ← Nat.modEq_iff_dvd' (by omega),
      Nat.ModEq, Nat.add_mod_right, Nat.mod_eq_of_lt within, eq_comm]
  rw [share, next, Nat.succ_div, share]
  simp only [own]

theorem share_zero {n c : Nat} (within : c < n) : share n 0 c = 0 :=
  Nat.div_eq_of_lt (by omega)

theorem share_whole {n k c : Nat} (within : c < n) (whole : n ∣ k) : share n k c = k / n := by
  obtain ⟨frames, rfl⟩ := whole
  rw [share, show n * frames + n - 1 - c = (n - 1 - c) + n * frames by omega,
    Nat.add_mul_div_left _ _ (by omega), Nat.div_eq_of_lt (by omega),
    Nat.mul_div_cancel_left _ (by omega), Nat.zero_add]

def held (channels : List (List F)) (c : Nat) : Nat := (channels.getD c []).length

theorem held_deal {n c k : Nat} {channels : List (List F)} (sample : F)
    (within : c < channels.length) :
    held (deal n channels (sample, k)) c =
      held channels c + if k % n = c then 1 else 0 := by
  simp only [held, deal, List.getD_eq_getElem?_getD, List.getElem?_modify,
    List.getElem?_eq_getElem within, Option.map_eq_map, Option.map_some, Option.getD_some]
  split <;> simp

/-- What the loop adds to a channel is what fell to it. -/
theorem held_dealt {n c : Nat} (within : c < n) (samples : List F) (k : Nat)
    (channels : List (List F)) (many : channels.length = n) :
    held ((samples.zipIdx k).foldl (deal n) channels) c + share n k c =
      held channels c + share n (k + samples.length) c := by
  induction samples generalizing k channels with
  | nil => rfl
  | cons sample samples ih =>
    have rest := ih (k + 1) (deal n channels (sample, k)) (by simp [deal, many])
    rw [share_succ within, held_deal sample (by omega)] at rest
    rw [List.zipIdx_cons, List.foldl_cons, List.length_cons,
      show k + (samples.length + 1) = k + 1 + samples.length by omega]
    omega

theorem dealt_length {n : Nat} (next : List (F × Nat)) (channels : List (List F)) :
    (next.foldl (deal n) channels).length = channels.length := by
  induction next generalizing channels with
  | nil => rfl
  | cons first next ih => rw [List.foldl_cons, ih, deal, List.length_modify]

theorem spread_length (channels : List (List F)) (samples : List F) :
    (spread channels samples).length = channels.length := by
  simp only [spread]
  split
  · rfl
  · exact dealt_length _ channels

/-- Every channel grows by the frames that are whole. -/
theorem held_spread {channels : List (List F)} {c : Nat} (within : c < channels.length)
    (samples : List F) :
    held (spread channels samples) c = held channels c + samples.length / channels.length := by
  -- Only whole frames are dealt, so every channel has the same share of them.
  have whole : samples.length - samples.length % channels.length =
      channels.length * (samples.length / channels.length) := by
    have split := Nat.div_add_mod samples.length channels.length
    omega
  have short := Nat.mul_div_le samples.length channels.length
  have dealt := held_dealt within (samples.take (samples.length - samples.length %
    channels.length)) 0 channels rfl
  rw [share_zero within, Nat.zero_add, List.length_take, whole, Nat.min_eq_left short,
    share_whole within (Nat.dvd_mul_right ..), Nat.mul_div_cancel_left _ (by omega)] at dealt
  simp only [spread]
  rw [if_neg (by omega), whole]
  exact dealt

theorem rectangular_iff {channels : List (List F)} :
    Rectangular channels ↔ ∀ c < channels.length, held channels c = held channels 0 := by
  have at_index (c : Nat) (within : c < channels.length) :
      held channels c = channels[c].length := by
    rw [held, List.getD_eq_getElem?_getD, List.getElem?_eq_getElem within, Option.getD_some]
  constructor
  · intro same c within
    rw [at_index c within, at_index 0 (by omega)]
    exact same _ (List.getElem_mem within) _ (List.getElem_mem _)
  · intro same first first_mem second second_mem
    obtain ⟨c, within, rfl⟩ := List.getElem_of_mem first_mem
    obtain ⟨d, below, rfl⟩ := List.getElem_of_mem second_mem
    rw [← at_index c within, ← at_index d below, same c within, same d below]

theorem spread_rectangular {channels : List (List F)} (same : Rectangular channels)
    (samples : List F) : Rectangular (spread channels samples) := by
  rw [rectangular_iff, spread_length] at *
  intro c within
  rw [held_spread within, held_spread (by omega), same c within]

theorem append_rectangular {sink : PlanarSink F} (same : Rectangular sink.channels)
    (rate : UInt32) (count : Nat) (samples : List F) :
    Rectangular (sink.append rate count samples).channels := by
  apply spread_rectangular
  split
  · intro first first_mem second second_mem
    rw [List.eq_of_mem_replicate first_mem, List.eq_of_mem_replicate second_mem]
  · exact same

theorem drain_rectangular {sink last : PlanarSink F} {cut : Bool} {packets : List (Packet F)}
    (same : Rectangular sink.channels) (ended : drain sink cut packets = .ok last) :
    Rectangular last.channels := by
  induction packets generalizing sink with
  | nil =>
    cases cut with
    | true => cases ended
    | false =>
      cases ended
      exact same
  | cons packet packets ih =>
    cases packet with
    | foreign => exact ih same ended
    | audio rate count samples => exact ih (append_rectangular same rate count samples) ended
    | corrupt => exact ih same ended
    | failed => cases ended

/-! ## What is decoded -/

structure Decoded.Stereo (decoded : Decoded F) : Prop where
  pair : decoded.data.length = 2
  long : ∀ channel ∈ decoded.data, channel.length = decoded.frames
  sound : 0 < decoded.frames

/-- Channels of one length are never refused for their lengths. -/
theorem finish_cases {sink : PlanarSink F} (same : Rectangular sink.channels) (label : String) :
    sink.finish label = .error ("decoded no audio from " ++ label) ∨
      ∃ decoded, sink.finish label = .ok decoded ∧ decoded.Stereo := by
  rcases sink with ⟨_ | ⟨first, others⟩, rate⟩
  · exact .inl rfl
  · by_cases silent : first.isEmpty
    · refine .inl ?_
      simp only [PlanarSink.finish, silent, if_true]
    · have sound : 0 < first.length := by simpa [List.length_pos_iff] using silent
      have level : ((first :: others).map List.length).zipIdx.find?
          (·.1 ≠ first.length) = none := by
        rw [List.find?_eq_none]
        rintro ⟨found, channel⟩ listed
        obtain ⟨other, other_mem, rfl⟩ := List.mem_map.mp (List.fst_mem_of_mem_zipIdx listed)
        simpa using same other other_mem first List.mem_cons_self
      have finished : PlanarSink.finish ⟨first :: others, rate⟩ label =
          .ok ⟨match (first :: others).length with
            | 1 => [first, first]
            | 2 => first :: others
            | _ => (first :: others).take 2, rate⟩ := by
        simp only [PlanarSink.finish, if_neg silent, level]
      refine .inr ⟨_, finished, ?_⟩
      match others, same with
      | [], _ => exact ⟨rfl, by simp [Decoded.frames], sound⟩
      | [second], same =>
        refine ⟨rfl, fun channel listed => ?_, sound⟩
        exact same channel listed first List.mem_cons_self
      | second :: third :: rest, same =>
        refine ⟨rfl, fun channel listed => ?_, sound⟩
        exact same channel (List.mem_of_mem_take listed) first List.mem_cons_self

/-- The texts that `decode_stream` refuses a file with. -/
def refusals (label : String) : List String :=
  ["probing " ++ label, "file contains no default audio track", "no decoder for this codec",
    "reading packet", "decoding", "decoded no audio from " ++ label]

theorem drain_refusals {sink : PlanarSink F} {cut : Bool} {packets : List (Packet F)}
    {error : String} (ended : drain sink cut packets = .error error) :
    error = "reading packet" ∨ error = "decoding" := by
  induction packets generalizing sink with
  | nil =>
    cases cut with
    | true =>
      cases ended
      exact .inl rfl
    | false => cases ended
  | cons packet packets ih =>
    cases packet with
    | foreign => exact ih ended
    | audio rate count samples => exact ih ended
    | corrupt => exact ih ended
    | failed =>
      cases ended
      exact .inr rfl

/-- A file is decoded to a stereo pair or refused, and never for ragged channels. -/
theorem decodeStream_cases (probed : Probed F) (label : String) :
    (∃ error ∈ refusals label, decodeStream probed label = .error error) ∨
      ∃ decoded, decodeStream probed label = .ok decoded ∧ decoded.Stereo := by
  cases probed with
  | unknown => exact .inl ⟨_, by simp [refusals], rfl⟩
  | trackless => exact .inl ⟨_, by simp [refusals], rfl⟩
  | undecodable => exact .inl ⟨_, by simp [refusals], rfl⟩
  | track declaredRate packets cut =>
    cases drained : drain (.new (declaredRate.getD 0)) cut packets with
    | error error =>
      refine .inl ⟨error, ?_, by rw [decodeStream, drained]; rfl⟩
      rcases drain_refusals drained with rfl | rfl <;> simp [refusals]
    | ok sink =>
      have same : Rectangular sink.channels :=
        drain_rectangular (fun _ listed => absurd listed List.not_mem_nil) drained
      have finished : decodeStream (.track declaredRate packets cut) label =
          sink.finish label := by rw [decodeStream, drained]; rfl
      rw [finished]
      rcases finish_cases same label with silent | decoded
      · exact .inl ⟨_, by simp [refusals], silent⟩
      · exact .inr decoded

theorem decodeStream_stereo {probed : Probed F} {label : String} {decoded : Decoded F}
    (ok : decodeStream probed label = .ok decoded) : decoded.Stereo := by
  rcases decodeStream_cases probed label with ⟨error, -, refused⟩ | ⟨other, same, stereo⟩
  · rw [refused] at ok
    cases ok
  · rw [same] at ok
    cases ok
    exact stereo

end Stemd.Decode
