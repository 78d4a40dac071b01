import Stemd.Core.Cancelled

/-! One model that produces every source, and the stems folded from them.

It is asked and called off as the two halves of the hybrid are, and reports its own chunk counts.
The parts of it that do not ask are the adapter between audio and arrays. -/

set_option autoImplicit false

namespace Stemd.Core

open Stemd.Semantics Stemd.Mlx

inductive FoldError where
  /-- `model has no source {name:?}` -/
  | noSource (name : String)
  /-- `source {name:?} missing from output` -/
  | missing (name : String)
  /-- `stem has no member sources` -/
  | noMembers
  /-- A sample that a longer plane has and a shorter one has not, which panics. -/
  | ragged
  deriving DecidableEq, Repr

inductive MlxError (K E : Type) where
  /-- `model expects {expected} channels, got {got}` -/
  | channels (expected got : Nat)
  /-- `model expects {expected} Hz, got {got} Hz` -/
  | rate (expected got : UInt32)
  /-- `nothing to separate: the mix has no frames` -/
  | noFrames
  | track (error : OverTrackError K E)
  /-- `folding the model's sources into the shipped stems` -/
  | folding (cause : FoldError)
  /-- A length that does not fit 32 bits, which is refused, or an index or a slice out of range,
  which panics. -/
  | misfit
  deriving DecidableEq, Repr

def stemSources : List (String × List String) :=
  [("harmonics", ["bass", "other"]), ("vocals", ["vocals"])]

structure MlxSeparator (K E : Type) where
  channels : Nat
  sampleRate : UInt32
  demucs : Chunked Unit (Fin channels) K E
  sources : List String
  overlap : K

def source {K : Type} (sources : List (Audio K)) (names : List String) (name : String) :
    Except FoldError (Audio K) :=
  match names.findIdx? (· = name) with
  | none => .error (.noSource name)
  | some index =>
    match sources[index]? with
    | none => .error (.missing name)
    | some audio => .ok audio

def addInto {K : Type} [Add K] (dst src : Audio K) : Except FoldError (Audio K) :=
  let data := (dst.data.mapIdx fun c ch =>
    (ch.mapIdx fun i sample => (src.sample? c i).map (sample + ·)).mapM id).mapM id
  match data with
  | none => .error .ragged
  | some data => .ok ⟨data, dst.sampleRate⟩

def foldMembers {K : Type} [Add K] (sources : List (Audio K)) (names : List String) :
    Option (Audio K) → List String → Except FoldError (Option (Audio K))
  | sum, [] => .ok sum
  | sum, member :: rest => do
      let audio ← source sources names member
      let sum ← match sum with
        | none => .ok audio
        | some sum => addInto sum audio
      foldMembers sources names (some sum) rest

def foldIntoShipped {K : Type} [Add K] (sources : List (Audio K)) (names : List String) :
    Except FoldError (List (String × Audio K)) :=
  stemSources.mapM fun (stem, members) => do
    match ← foldMembers sources names none members with
    | none => .error .noMembers
    | some sum => .ok (stem, sum)

def inBounds {K E α : Type} : Option α → Except (MlxError K E) α
  | some value => .ok value
  | none => .error .misfit

namespace MlxSeparator

variable {K E : Type}

/-- Reject a mix the model cannot accept, before any work is done. -/
def checkGeometry (separator : MlxSeparator K E) (mix : Audio K) : Except (MlxError K E) Unit := do
  if mix.channels ≠ separator.channels then throw (.channels separator.channels mix.channels)
  if mix.sampleRate ≠ separator.sampleRate then throw (.rate separator.sampleRate mix.sampleRate)

/-- A separated track back into one buffer per model source, with the normalisation undone. -/
def toSources [Field K] (separator : MlxSeparator K E)
    (out : Rows (Unit × Fin separator.demucs.sources × Fin separator.channels) K)
    (norm : Normalisation K) (frames : Nat) : Option (List (Audio K)) :=
  let flat := (List.finRange separator.demucs.sources).flatMap fun s =>
    (List.finRange separator.channels).flatMap fun c => out.row ((), s, c)
  let stride := separator.channels * frames
  (List.range separator.sources.length).mapM fun source =>
    if (source + 1) * stride ≤ flat.length then
      let plane := (flat.drop (source * stride)).take stride
      some ⟨(List.range separator.channels).map fun c =>
        ((plane.drop (c * frames)).take frames).map norm.restore, separator.sampleRate⟩
    else none

def report (done total : Nat) : Progress :=
  .counted .separating (UInt32.ofNat (min done (2 ^ 32 - 1)))
    (UInt32.ofNat (min total (2 ^ 32 - 1)))

/-- `MlxSeparator::separate`, with what it tells its sink. -/
def tracedSeparate {M : Type} [Field K] [LinearOrder K] [FloorRing K] (root : K → K)
    (separator : MlxSeparator K (AnyError M)) (raised : Nat → Bool) (mix : Audio K) :
    Timed SinkEvent (MlxError K (AnyError M)) (Stems K) := do
  Timed.lift (separator.checkGeometry mix)
  Timed.emit fun _ => .update (.new .analysing)
  Timed.lift (ensure (mix.frames ≠ 0) .noFrames)
  let norm ← Timed.lift (inBounds (Normalisation.of root mix))
  let input ← Timed.lift (inBounds (toArray separator.channels mix (some norm)))
  let separated ← (tracedTrack .pass separator.demucs input separator.overlap
    (ask raised report)).mapError .track
  Timed.emit fun _ => .update (.new .reconstructing)
  let sources ← Timed.lift (inBounds (separator.toSources separated norm mix.frames))
  Timed.lift (((foldIntoShipped sources separator.sources).mapError .folding).map Stems.mk)

end MlxSeparator

def MlxError.caused {K M : Type} : MlxError K (AnyError M) → Bool
  | .track (.failed e) => e.caused
  | _ => false

def MlxError.Caused {K M : Type} (e : MlxError K (AnyError M)) : Prop := e.caused = true

theorem inBounds_ok {K E α : Type} {o : Option α} {value : α}
    (ended : (inBounds o : Except (MlxError K E) α) = .ok value) : o = some value := by
  cases o with
  | none => cases ended
  | some found =>
      cases ended
      rfl

theorem MlxError.caused_track {K M : Type} (e : OverTrackError K (AnyError M))
    (stopped : OverTrackError.Stopped Core.Caused e) : (MlxError.track e).Caused := by
  cases e with
  | failed e => exact stopped
  | noStride overlap => cases stopped
  | uncovered overlap => cases stopped
  | array => cases stopped

section

variable {K M : Type} [Field K] [LinearOrder K] [FloorRing K] {raised : Nat → Bool}

namespace MlxSeparator

theorem tracedSeparate_prompt (root : K → K) (separator : MlxSeparator K (AnyError M))
    (mix : Audio K) : (cancelFlag raised).Prompt MlxError.Caused
      (separator.tracedSeparate root raised mix) := by
  refine (Flag.prompt_lift _).bind fun _ => (update_prompt _).bind fun _ => ?_
  refine (Flag.prompt_lift _).bind fun _ => (Flag.prompt_lift _).bind fun norm => ?_
  refine (Flag.prompt_lift _).bind fun input => Flag.Prompt.bind ?_ fun separated => ?_
  · exact (tracedTrack_prompt _ _ _ ask_prompt ask_clears rfl _).mapError MlxError.caused_track
  · exact (update_prompt _).bind fun _ => (Flag.prompt_lift _).bind fun _ => Flag.prompt_lift _

def plan (total : Nat) : List SinkEvent :=
  [.update (.new .analysing)] ++ (halfPlan report total ++ [.update (.new .reconstructing)])

theorem tracedSeparate_follows (root : K → K) (separator : MlxSeparator K (AnyError M))
    (mix : Audio K) (t : Nat) : (cancelFlag raised).Follows
      (plan (chunks separator.overlap separator.demucs.chunk mix.frames))
      (separator.tracedSeparate root raised mix t) := by
  refine (Flag.follows_lift _).bind fun _ _ => (Flag.follows_emit _).bind fun _ _ => ?_
  refine (Flag.follows_lift _).bind fun _ _ => (Flag.follows_lift _).bind fun norm _ => ?_
  refine (Flag.follows_lift _).bind fun input given => ?_
  rw [← toArray_width (inBounds_ok given)]
  refine ((tracedTrack_follows _ _ _ ask_follows separator.overlap _).mapError).bind fun out _ => ?_
  refine (Flag.follows_emit _).bind_silent fun _ t => ?_
  exact .lift_bind _ fun sources t => Flag.follows_lift _

end MlxSeparator

/-- One half as its callback sees it: asked at `0` to `total` of the one total, with as many
passes. -/
structure Announces (total : Nat) (events : List SinkEvent) : Prop where
  calls : events.filterMap SinkEvent.call = (List.range (total + 1)).map fun done => (done, total)
  passes : events.countP SinkEvent.isPass = total

/-- The halves one after the other, with nothing asked or passed before, between or after. -/
def Announced (totals : List Nat) (events : List SinkEvent) : Prop :=
  ∃ (before after : List Progress) (halves : List (List SinkEvent)),
    List.Forall₂ Announces totals halves ∧
      events = before.map .update ++ (halves.flatten ++ after.map .update)

/-- Whenever the flag goes up, at most one more pass is begun; and once it has been seen up, the
end is an error that says so. -/
structure Responsive {E α : Type} (caused : E → Bool)
    (separation : (Nat → Bool) → Timed SinkEvent E α) : Prop where
  one_more : ∀ moment i j, moment ≤ i → moment ≤ j →
    (separation (raisedAt (some moment)) 0).2[i]? = some .pass →
    (separation (raisedAt (some moment)) 0).2[j]? = some .pass → i = j
  told : ∀ moment done total, .poll done total true ∈ (separation (raisedAt moment) 0).2 →
    ∃ e, (separation (raisedAt moment) 0).1 = .error e ∧ caused e = true

/-- Never called off, and ending well, a separation has announced these totals; ending badly, it
has gone some way there. -/
def Undisturbed {E α : Type} (totals : List Nat)
    (separation : (Nat → Bool) → Timed SinkEvent E α) : Prop :=
  ∃ planned, Announced totals planned ∧ (separation (raisedAt none) 0).2 <+: planned ∧
    ∀ value, (separation (raisedAt none) 0).1 = .ok value →
      (separation (raisedAt none) 0).2 = planned

omit [Field K] [LinearOrder K] [FloorRing K] in
theorem halfPlan_announces (progress : Nat → Nat → Progress) (total : Nat) :
    Announces total (halfPlan progress total) :=
  ⟨halfPlan_calls progress total, halfPlan_passes progress total⟩

theorem responsive_of_prompt {E α : Type} {caused : E → Bool}
    {separation : (Nat → Bool) → Timed SinkEvent E α}
    (prompt : ∀ raised, (cancelFlag raised).Prompt (fun e => caused e = true) (separation raised)) :
    Responsive caused separation := by
  refine ⟨fun moment i j late late' first second => ?_, fun moment done total seen => ?_⟩
  · have up (t : Nat) (after : moment ≤ t) : raisedAt (some moment) t = true := decide_eq_true after
    exact (prompt _).one_more up late late' first rfl second rfl
  -- The flag was found up at some event, and that one is the last.
  · obtain ⟨i, here⟩ := List.mem_iff_getElem?.mp seen
    exact ((prompt _).stops 0 i _ here rfl).2

theorem undisturbed_of_follows {E α : Type} {caused : E → Prop} {totals : List Nat}
    {separation : (Nat → Bool) → Timed SinkEvent E α} {planned : List SinkEvent}
    (prompt : (cancelFlag (raisedAt none)).Prompt caused (separation (raisedAt none)))
    (follows : (cancelFlag (raisedAt none)).Follows planned (separation (raisedAt none) 0))
    (announced : Announced totals planned) : Undisturbed totals separation :=
  ⟨planned, announced, follows.prefix_of_down prompt.toHeeds fun _ => rfl, follows.1⟩

/-- Calling a separation off costs at most one chunk, by one model or by two; and one that is not
called off counts each of its halves through. -/
theorem cancelling_costs_one_chunk (root : K → K) (mix : Audio K) :
    (∀ separator : MlxSeparator K (AnyError M),
      Responsive MlxError.caused (separator.tracedSeparate root · mix) ∧
      Undisturbed [chunks separator.overlap separator.demucs.chunk mix.frames]
        (separator.tracedSeparate root · mix)) ∧
    ∀ separator : HybridSeparator K (AnyError M),
      Responsive HybridError.caused (separator.tracedSeparate root · mix) ∧
      ∃ second, Undisturbed
        [chunks separator.overlap separator.vocals.model.chunk mix.frames, second]
        (separator.tracedSeparate root · mix) := by
  refine ⟨fun separator => ⟨?_, ?_⟩, fun separator => ⟨?_, ?_⟩⟩
  · exact responsive_of_prompt fun raised => separator.tracedSeparate_prompt root mix
  · refine undisturbed_of_follows (separator.tracedSeparate_prompt root mix)
      (separator.tracedSeparate_follows root mix 0) ?_
    exact ⟨[.new .analysing], [.new .reconstructing], [_],
      .cons (halfPlan_announces _ _) .nil, by rw [List.flatten_singleton]; rfl⟩
  · exact responsive_of_prompt fun raised => separator.tracedSeparate_prompt root mix
  · obtain ⟨second, follows⟩ := separator.tracedSeparate_follows root mix 0
    refine ⟨second, undisturbed_of_follows (separator.tracedSeparate_prompt root mix) follows ?_⟩
    let first := halfPlan (within 0 separator.vocalsSpan)
      (chunks separator.overlap separator.vocals.model.chunk mix.frames)
    -- The halves split the bar between them, each with counts of its own.
    let rest := halfPlan (within separator.vocalsSpan (units - separator.vocalsSpan)) second
    refine ⟨[.new .analysing, within 0 0 0 1], [within units 0 0 1, .new .reconstructing],
      [first, rest], .cons (halfPlan_announces _ _) (.cons (halfPlan_announces _ _) .nil), ?_⟩
    rw [List.flatten_cons, List.flatten_singleton, List.append_assoc]
    rfl

end

def copies (sources : Nat) : Chunked Unit (Fin 1) ℚ (AnyError Unit) where
  chunk := 2
  sources := sources
  separateChunk chunk := .ok (chunk.reindex fun name => (name.1, name.2.2))

def fourCopies : MlxSeparator ℚ (AnyError Unit) :=
  ⟨1, 44100, copies 4, ["drums", "bass", "other", "vocals"], 1 / 2⟩

def twoCopies : HybridSeparator ℚ (AnyError Unit) :=
  ⟨1, 44100, ⟨copies 1, 0, true⟩, ⟨copies 1, 0, false⟩, 1 / 2, true⟩

def threeSamples : Audio ℚ := ⟨[[1, 2, 3]], 44100⟩

theorem Announces.sum {totals : List Nat} {halves : List (List SinkEvent)}
    (each : List.Forall₂ Announces totals halves) :
    halves.flatten.countP SinkEvent.isPass = totals.sum := by
  induction each with
  | nil => rfl
  | cons first _ ih => rw [List.flatten_cons, List.countP_append, first.passes, ih, List.sum_cons]

theorem Undisturbed.passes {E α : Type} {totals : List Nat}
    {separation : (Nat → Bool) → Timed SinkEvent E α} (alone : Undisturbed totals separation)
    {value : α} (ended : (separation (raisedAt none) 0).1 = .ok value) :
    (separation (raisedAt none) 0).2.countP SinkEvent.isPass = totals.sum := by
  obtain ⟨planned, ⟨before, after, halves, each, rfl⟩, -, whole⟩ := alone
  have updates (l : List Progress) : (l.map SinkEvent.update).countP SinkEvent.isPass = 0 := by
    rw [List.countP_eq_zero]
    intro event member
    obtain ⟨progress, -, rfl⟩ := List.mem_map.mp member
    exact Bool.false_ne_true
  rw [whole value ended, List.countP_append, List.countP_append, updates, updates,
    Announces.sum each]
  omega

/-- Three samples take one model three passes, and two models three for the first; a flag that is
raised as the first pass begins is seen after it and told of. -/
theorem three_samples_cost_their_chunks :
    (∃ stems, (fourCopies.tracedSeparate id (raisedAt none) threeSamples 0).1 = .ok stems) ∧
    (fourCopies.tracedSeparate id (raisedAt none) threeSamples 0).2.countP SinkEvent.isPass = 3 ∧
    (∃ e, (fourCopies.tracedSeparate id (raisedAt (some 3)) threeSamples 0).1 = .error e ∧
      e.caused = true) ∧
    (∃ stems, (twoCopies.tracedSeparate id (raisedAt none) threeSamples 0).1 = .ok stems) ∧
    ∃ second, (twoCopies.tracedSeparate id (raisedAt none) threeSamples 0).2.countP
      SinkEvent.isPass = 3 + second := by
  obtain ⟨single, hybrid⟩ := cancelling_costs_one_chunk (M := Unit) id threeSamples
  obtain ⟨prompt, alone⟩ := single fourCopies
  obtain ⟨-, second, both⟩ := hybrid twoCopies
  have well {E : Type} {ended : Except E (Stems ℚ)} (is : ended.isOk = true) :
      ∃ stems, ended = .ok stems := by
    cases ended with
    | ok stems => exact ⟨stems, rfl⟩
    | error e => cases is
  have ends : (fourCopies.tracedSeparate id (raisedAt none) threeSamples 0).1.isOk = true := by
    decide +kernel
  have ends' : (twoCopies.tracedSeparate id (raisedAt none) threeSamples 0).1.isOk = true := by
    decide +kernel
  obtain ⟨stems, one⟩ := well ends
  obtain ⟨stems', two⟩ := well ends'
  have count : [chunks fourCopies.overlap fourCopies.demucs.chunk threeSamples.frames].sum = 3 := by
    decide +kernel
  have count' : chunks twoCopies.overlap twoCopies.vocals.model.chunk threeSamples.frames = 3 := by
    decide +kernel
  have looked : ((fourCopies.tracedSeparate id (raisedAt (some 3)) threeSamples 0).2.any
      fun event => event.seen = some true) = true := by decide +kernel
  obtain ⟨event, member, up⟩ := List.any_eq_true.mp looked
  obtain ⟨done, total, rfl⟩ : ∃ done total, event = .poll done total true := by
    cases event with
    | poll done total seen => exact ⟨done, total, by rw [Option.some.inj (of_decide_eq_true up)]⟩
    | _ => cases up
  refine ⟨⟨stems, one⟩, (alone.passes one).trans count, prompt.told _ _ _ member,
    ⟨stems', two⟩, second, (both.passes two).trans ?_⟩
  rw [List.sum_cons, List.sum_singleton, count']

end Stemd.Core
