import Stemd.Mlx.OverTrack
import Stemd.Semantics.Fallible
import Stemd.Semantics.Timed

/-! A run over a track, pass by pass.

What it computes is what it computes elsewhere. Here the caller is asked before each chunk and
answers by what it sees then, and each pass of the model is an event among those that asking
leaves behind. -/

set_option autoImplicit false

namespace Stemd.Mlx

open Stemd.Semantics

section

variable {B C K E V : Type} [Field K] [LinearOrder K] (pass : V)

/-- One turn of the loop. The chunk is cut out before the model is handed it. -/
def tracedSegment (model : Chunked B C K E) (mix : Rows (B × C) K) (weight : Rows Unit K)
    (fade : Crossfade B C K model.sources) (offset : Int) :
    Timed V (OverTrackError K E) (Crossfade B C K model.sources) := do
  let _ ← Timed.lift (required (chunkAt mix (window model.chunk mix.width offset)))
  Timed.emit fun _ => pass
  Timed.lift (addSegment model mix weight fade offset)

def tracedSegments (model : Chunked B C K E) (mix : Rows (B × C) K) (weight : Rows Unit K)
    (progress : Nat → Nat → Timed V E Unit) (total : Nat) :
    Nat → Crossfade B C K model.sources → List Int →
      Timed V (OverTrackError K E) (Crossfade B C K model.sources)
  | _, fade, [] => Timed.lift (.ok fade)
  | done, fade, offset :: rest => do
      (progress done total).mapError .failed
      let fade ← tracedSegment pass model mix weight fade offset
      tracedSegments model mix weight progress total (done + 1) fade rest

/-- `over_track`, with a caller that is asked at a time of its own. -/
def tracedTrack [FloorRing K] (model : Chunked B C K E) (mix : Rows (B × C) K) (overlap : K)
    (progress : Nat → Nat → Timed V E Unit) :
    Timed V (OverTrackError K E) (Rows (B × Fin model.sources × C) K) := do
  let stride := strideOf overlap model.chunk
  Timed.lift (ensure (¬ stride < 1) (.noStride overlap))
  let weight ← Timed.lift (required (transitionWeight model.chunk))
  let offsets := offsets mix.width stride
  let fade ← tracedSegments pass model mix weight progress offsets.length 0
    ⟨.zeros _ K mix.width, .zeros _ K mix.width⟩ offsets
  (progress offsets.length offsets.length).mapError .failed
  let smallest ← Timed.lift (required (fade.sumWeight.row ()).min?)
  Timed.lift (ensure (¬ smallest ≤ 0) (.uncovered overlap))
  Timed.lift (required (fade.out.zipWith (· / ·) (fade.sumWeight.reindex fun _ => ())))

/-- What asking leaves behind before each chunk, and the pass after it; then asking once more. -/
def trackPlan (asking : Nat → List V) (total : Nat) : List V :=
  ((List.range' 0 total).flatMap fun done => asking done ++ [pass]) ++ asking total

def chunks [FloorRing K] (overlap : K) (segment : Int) (width : Nat) : Nat :=
  (offsets width (strideOf overlap segment)).length

def OverTrackError.Stopped (stopped : E → Prop) : OverTrackError K E → Prop
  | .failed e => stopped e
  | _ => False

end

section

variable {B C K E V : Type} [Field K] {pass : V} {flag : Flag V}
  {stopped : E → Prop} {model : Chunked B C K E} {mix : Rows (B × C) K}

variable (pass model mix)

theorem tracedSegment_heeds (quiet : flag.asks pass = none) (weight : Rows Unit K)
    (fade : Crossfade B C K model.sources) (offset : Int) :
    flag.Heeds (OverTrackError.Stopped stopped) (tracedSegment pass model mix weight fade offset) :=
  (Flag.prompt_lift _).toHeeds.bind fun _ => (Flag.heeds_emit fun _ => quiet).bind fun _ =>
    (Flag.prompt_lift _).toHeeds

theorem tracedSegment_guards (weight : Rows Unit K) (fade : Crossfade B C K model.sources)
    (offset : Int) : flag.Guards true (tracedSegment pass model mix weight fade offset) :=
  .lift_bind _ fun _ => (Flag.guards_emit fun _ _ => rfl).bind fun _ => Flag.guards_lift false _

theorem tracedSegment_follows (weight : Rows Unit K) (fade : Crossfade B C K model.sources)
    (offset : Int) (t : Nat) :
    flag.Follows [pass] (tracedSegment pass model mix weight fade offset t) :=
  (Flag.follows_lift _).bind fun _ _ => (Flag.follows_emit _).bind fun _ _ => Flag.follows_lift _

variable {progress : Nat → Nat → Timed V E Unit}

theorem tracedSegments_prompt (asks : ∀ done total, flag.Prompt stopped (progress done total))
    (clears : ∀ done total, flag.Clears (progress done total)) (quiet : flag.asks pass = none)
    (weight : Rows Unit K) (total : Nat) (rest : List Int) (done : Nat)
    (fade : Crossfade B C K model.sources) :
    flag.Prompt (OverTrackError.Stopped stopped)
      (tracedSegments pass model mix weight progress total done fade rest) := by
  induction rest generalizing done fade with
  | nil => exact Flag.prompt_lift _
  | cons offset rest ih =>
      have asked : flag.Prompt (OverTrackError.Stopped (K := K) stopped)
          ((progress done total).mapError .failed) := (asks done total).mapError fun _ is => is
      have segment : flag.Heeds (OverTrackError.Stopped stopped) _ :=
        tracedSegment_heeds pass model mix quiet weight fade offset
      refine ⟨asked.toHeeds.bind fun _ => segment.bind fun fade =>
        (ih (done + 1) fade).toHeeds, ?_⟩
      -- The pass comes right after the flag was asked for.
      exact (clears done total).mapError.bind asked.guards fun _ =>
        (tracedSegment_guards pass model mix weight fade offset).bind fun fade =>
          (ih (done + 1) fade).guards

theorem tracedSegments_follows {asking : Nat → List V} {total : Nat}
    (plans : ∀ done t, flag.Follows (asking done) (progress done total t))
    (weight : Rows Unit K) (rest : List Int) (done : Nat) (fade : Crossfade B C K model.sources)
    (t : Nat) :
    flag.Follows ((List.range' done rest.length).flatMap fun done => asking done ++ [pass])
      (tracedSegments pass model mix weight progress total done fade rest t) := by
  induction rest generalizing done fade t with
  | nil => exact Flag.follows_lift _
  | cons offset rest ih =>
      rw [List.length_cons, List.range'_succ, List.flatMap_cons, List.append_assoc]
      exact (plans done t).mapError.bind fun _ _ =>
        (tracedSegment_follows pass model mix weight fade offset _).bind fun fade _ =>
          ih (done + 1) fade _

variable [LinearOrder K] [FloorRing K]

/-- A run over a track is as prompt as the caller who is asked. -/
theorem tracedTrack_prompt (asks : ∀ done total, flag.Prompt stopped (progress done total))
    (clears : ∀ done total, flag.Clears (progress done total)) (quiet : flag.asks pass = none)
    (overlap : K) :
    flag.Prompt (OverTrackError.Stopped stopped) (tracedTrack pass model mix overlap progress) := by
  have asked (done total : Nat) : flag.Prompt (OverTrackError.Stopped stopped)
      ((progress done total).mapError (.failed : E → OverTrackError K E)) :=
    (asks done total).mapError fun _ is => is
  refine (Flag.prompt_lift _).bind fun _ => (Flag.prompt_lift _).bind fun weight => ?_
  refine (tracedSegments_prompt pass model mix asks clears quiet weight _ _ 0 _).bind fun fade => ?_
  refine (asked _ _).bind fun _ => (Flag.prompt_lift _).bind fun _ => ?_
  exact (Flag.prompt_lift _).bind fun _ => Flag.prompt_lift _

theorem tracedTrack_follows {asking : Nat → Nat → List V}
    (plans : ∀ done total t, flag.Follows (asking done total) (progress done total t))
    (overlap : K) (t : Nat) :
    flag.Follows (trackPlan pass (asking · (chunks overlap model.chunk mix.width))
        (chunks overlap model.chunk mix.width))
      (tracedTrack pass model mix overlap progress t) := by
  have loop (weight : Rows Unit K) := tracedSegments_follows pass model mix
    (fun done => plans done (chunks overlap model.chunk mix.width)) weight
    (offsets mix.width (strideOf overlap model.chunk)) 0
  refine .lift_bind _ fun _ t => .lift_bind _ fun weight t =>
    (loop weight _ t).bind fun fade _ => ?_
  refine (plans _ _ _).mapError.bind_silent fun _ t => .lift_bind _ fun _ t => ?_
  exact .lift_bind _ fun _ t => Flag.follows_lift _

omit [LinearOrder K] [FloorRing K] in
theorem tracedSegment_fst (weight : Rows Unit K) (fade : Crossfade B C K model.sources)
    (offset : Int) (t : Nat) : (tracedSegment pass model mix weight fade offset t).1 =
      addSegment model mix weight fade offset := by
  rw [tracedSegment, Timed.bind_fst, addSegment]
  cases chunkAt mix (window model.chunk mix.width offset) <;> rfl

omit [LinearOrder K] [FloorRing K] in
theorem tracedSegment_length {weight : Rows Unit K} {fade fade' : Crossfade B C K model.sources}
    {offset : Int} {t : Nat}
    (added : (tracedSegment pass model mix weight fade offset t).1 = .ok fade') :
    (tracedSegment pass model mix weight fade offset t).2.length = 1 := by
  have follows : (⟨fun _ => none, fun _ => false, fun _ => false⟩ : Flag V).Follows [pass] _ :=
    tracedSegment_follows pass model mix weight fade offset t
  rw [follows.1 fade' added, List.length_singleton]

section

variable {pace : Nat} (even : ∀ done total t, (progress done total t).1 = .ok () →
  (progress done total t).2.length = pace)

include even

omit [LinearOrder K] [FloorRing K] in
theorem tracedSegments_length {weight : Rows Unit K} {total t done : Nat} {rest : List Int}
    {fade fade' : Crossfade B C K model.sources}
    (ended : (tracedSegments pass model mix weight progress total done fade rest t).1 = .ok fade') :
    (tracedSegments pass model mix weight progress total done fade rest t).2.length =
      rest.length * (pace + 1) := by
  induction rest generalizing done fade t with
  | nil => exact (Nat.zero_mul _).symm
  | cons offset rest ih =>
      rw [tracedSegments] at ended ⊢
      obtain ⟨_, asked, ended, events⟩ := Timed.bind_ok ended
      obtain ⟨fade, added, ended, events'⟩ := Timed.bind_ok ended
      have answered : (progress done total t).1 = .ok () := by
        cases answer : (progress done total t).1 with
        | error e =>
            rw [Timed.mapError_apply, answer] at asked
            cases asked
        | ok _ => rfl
      rw [events, events', List.length_append, List.length_append, ih ended,
        tracedSegment_length pass model mix added, Timed.mapError_apply,
        even done total t answered, List.length_cons, Nat.succ_mul]
      omega

omit [LinearOrder K] [FloorRing K] in
/-- A caller who takes as long each time answers by the number of the turn. -/
theorem tracedSegments_fst (weight : Rows Unit K) (total t : Nat) (rest : List Int) (done : Nat)
    (fade : Crossfade B C K model.sources) :
    (tracedSegments pass model mix weight progress total done fade rest
      (t + done * (pace + 1))).1 =
      addSegments model mix weight
        (fun done total => (progress done total (t + done * (pace + 1))).1) total done fade
        rest := by
  induction rest generalizing done fade with
  | nil => rfl
  | cons offset rest ih =>
      rw [tracedSegments, Timed.bind_fst, addSegments, Timed.mapError_apply]
      cases answer : (progress done total (t + done * (pace + 1))).1 with
      | error e => rfl
      | ok _ =>
          have long := even done total _ answer
          simp only [Except.mapError, ok_bind, Timed.bind_fst, tracedSegment_fst, long]
          cases added : addSegment model mix weight fade offset with
          | error e => rfl
          | ok fade' =>
              have one := tracedSegment_length pass model mix
                ((tracedSegment_fst pass model mix weight fade offset
                  (t + done * (pace + 1) + pace)).trans added)
              -- Every turn takes the same time, so that the next one starts when its number says.
              have time : t + done * (pace + 1) + pace + 1 = t + (done + 1) * (pace + 1) := by
                rw [Nat.succ_mul]
                omega
              rw [ok_bind, ok_bind, one, time]
              exact ih (done + 1) fade'

theorem tracedTrack_fst (overlap : K) (t : Nat) :
    (tracedTrack pass model mix overlap progress t).1 =
      overTrack model mix overlap
        fun done total => (progress done total (t + done * (pace + 1))).1 := by
  rw [tracedTrack, overTrack]
  by_cases small : strideOf overlap model.chunk < 1
  · simp only [ensure, small, Timed.bind_fst, Timed.lift_apply]
    rfl
  · simp only [ensure, small, Timed.bind_fst, Timed.lift_apply, not_false_eq_true, if_true,
      if_false,
      List.length_nil, Nat.add_zero, ok_bind]
    cases transitionWeight (K := K) model.chunk with
    | none => rfl
    | some weight =>
        generalize (⟨.zeros _ K mix.width, .zeros _ K mix.width⟩ :
          Crossfade B C K model.sources) = fade
        have turns := tracedSegments_fst pass model mix even weight
          (offsets mix.width (strideOf overlap model.chunk)).length t
          (offsets mix.width (strideOf overlap model.chunk)) 0 fade
        simp only [Nat.zero_mul, Nat.add_zero] at turns
        simp only [required, ok_bind, ← turns]
        cases ran : (tracedSegments pass model mix weight progress
            (offsets mix.width (strideOf overlap model.chunk)).length 0 fade
            (offsets mix.width (strideOf overlap model.chunk)) t).1 with
        | error e => rfl
        | ok fade' =>
            have long := tracedSegments_length pass model mix even ran
            simp only [ok_bind, Timed.mapError_apply, long]
            cases Except.mapError OverTrackError.failed (progress _ _ _).1 with
            | error e => rfl
            | ok _ =>
                rw [ok_bind, ok_bind]
                cases (fade'.sumWeight.row ()).min? with
                | none => rfl
                | some smallest =>
                    rw [ok_bind, ok_bind]
                    by_cases silent : smallest ≤ 0
                    · rw [if_pos silent, if_neg (not_not.mpr silent)]
                      rfl
                    · rw [if_neg silent, if_pos silent]
                      rfl

end

end

end Stemd.Mlx
