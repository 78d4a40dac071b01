import Stemd.Core.Hybrid
import Stemd.Core.Progress
import Stemd.Mlx.Traced

/-! What a separation asks and reports on the way, and how it is called off.

Nobody waiting any more is a flag that is raised at some time and stays up. It is asked for
before each chunk and not between; what finds it up ends with an error of its own kind, which is
told from a failure by walking down to what caused it. -/

set_option autoImplicit false

namespace Stemd.Core

open Stemd.Semantics Stemd.Mlx

inductive AnyError (M : Type) where
  | cancelled
  | failure (error : M)
  | context (text : String) (cause : AnyError M)
  deriving DecidableEq, Repr

/-- `Cancelled::caused`, which walks the chain. -/
def AnyError.caused {M : Type} : AnyError M → Bool
  | .cancelled => true
  | .failure _ => false
  | .context _ cause => cause.caused

inductive SinkEvent where
  /-- The callback, by what it was handed, and whether it found the flag up. -/
  | poll (done total : Nat) (seen : Bool)
  | pass
  | update (progress : Progress)

def SinkEvent.seen : SinkEvent → Option Bool
  | .poll _ _ seen => some seen
  | _ => none

def SinkEvent.isPass : SinkEvent → Bool
  | .pass => true
  | _ => false

def raisedAt (moment : Option Nat) (t : Nat) : Bool := moment.any fun raised => raised ≤ t

def cancelFlag (raised : Nat → Bool) : Flag SinkEvent := ⟨SinkEvent.seen, SinkEvent.isPass, raised⟩

def units : Nat := 1000

def vocalsUnits : Nat := 900

def within (base span done total : Nat) : Progress :=
  .counted .separating (UInt32.ofNat (min (base + done * span / total) units)) (UInt32.ofNat units)

/-- The callback that `over_track` is handed: refusing is what stops it. -/
def ask {M : Type} (raised : Nat → Bool) (progress : Nat → Nat → Progress) (done total : Nat) :
    Timed SinkEvent (AnyError M) Unit := do
  let t ← Timed.now
  Timed.emit fun _ => .poll done total (raised t)
  if raised t then Timed.lift (.error .cancelled)
  else Timed.emit fun _ => .update (progress done total)

def HybridError.caused {K M : Type} : HybridError K (AnyError M) → Bool
  | .track (.failed e) => e.caused
  | _ => false

section

variable {K M : Type} [Field K] [LinearOrder K] [FloorRing K]

def Half.tracedRun (root : K → K) {channels : Nat} (overlap : K)
    (half : Half K (AnyError M) channels) (source : Audio K) (raised : Nat → Bool)
    (progress : Nat → Nat → Progress) (frames : Nat) :
    Timed SinkEvent (HybridError K (AnyError M)) (List (List K)) := do
  let norm ← Timed.lift (fitted (Normalisation.of root source))
  let norm := if half.normalised then some norm else none
  let input ← Timed.lift (fitted (toArray channels source norm))
  let out ← (tracedTrack .pass half.model input overlap (ask raised progress)).mapError .track
  Timed.lift (fitted (toPlanes out half.source norm frames))

namespace HybridSeparator

/-- True when neither half is a RoFormer, so that the bar can be split evenly. -/
def halvesCostTheSame (separator : HybridSeparator K (AnyError M)) : Bool :=
  separator.vocals.model.chunk = separator.drums.model.chunk

def vocalsSpan (separator : HybridSeparator K (AnyError M)) : Nat :=
  if separator.halvesCostTheSame then units / 2 else vocalsUnits

/-- `HybridSeparator::separate`, with what it tells its sink. -/
def tracedSeparate (root : K → K) (separator : HybridSeparator K (AnyError M))
    (raised : Nat → Bool) (mix : Audio K) :
    Timed SinkEvent (HybridError K (AnyError M)) (Stems K) := do
  Timed.lift (separator.checkGeometry mix)
  Timed.emit fun _ => .update (.new .analysing)
  Timed.lift (ensure (mix.frames ≠ 0) .noFrames)
  let span := separator.vocalsSpan
  Timed.emit fun _ => .update (within 0 0 0 1)
  let vocals ←
    separator.vocals.tracedRun root separator.overlap mix raised (within 0 span) mix.frames
  let drums ←
    separator.drums.tracedRun root separator.overlap (separator.forDrums mix vocals) raised
    (within span (units - span)) mix.frames
  Timed.emit fun _ => .update (within units 0 0 1)
  Timed.emit fun _ => .update (.new .reconstructing)
  Timed.lift (fitted (separator.assembled mix vocals drums))

end HybridSeparator

end

section

variable {M : Type} {raised : Nat → Bool} {progress : Nat → Nat → Progress}

def Caused (e : AnyError M) : Prop := e.caused = true

theorem ask_apply (raised : Nat → Bool) (progress : Nat → Nat → Progress) (done total t : Nat) :
    (ask raised progress done total : Timed SinkEvent (AnyError M) Unit) t =
      if raised t then (.error .cancelled, [.poll done total true])
      else (.ok (), [.poll done total false, .update (progress done total)]) := by
  rw [ask, Timed.now_bind, Timed.emit_bind]
  cases raised t <;> rfl

theorem ask_prompt (done total : Nat) : (cancelFlag raised).Prompt Caused
    (ask raised progress done total : Timed SinkEvent (AnyError M) Unit) := by
  refine ⟨⟨fun t i v found here asked => ?_, fun t i v here asked => ?_⟩, fun t => ?_⟩
  · rw [ask_apply] at here
    cases up : raised t <;> rw [up] at here <;> obtain _ | _ | i := i <;> cases here <;>
      cases asked <;> exact up.symm
  · rw [ask_apply] at here ⊢
    cases up : raised t <;> rw [up] at here <;> obtain _ | _ | i := i <;> cases here <;>
      cases asked
    exact ⟨rfl, .cancelled, rfl, rfl⟩
  · rw [ask_apply]
    split
    · exact ⟨nofun, trivial⟩
    · exact ⟨nofun, nofun, trivial⟩

theorem update_prompt {E : Type} {stopped : E → Prop} (progress : Progress) :
    (cancelFlag raised).Prompt stopped
      (Timed.emit fun _ => .update progress : Timed SinkEvent E Unit) :=
  ⟨Flag.heeds_emit fun _ => rfl, Flag.guards_emit nofun⟩

theorem ask_clears (done total : Nat) : (cancelFlag raised).Clears
    (ask raised progress done total : Timed SinkEvent (AnyError M) Unit) := by
  intro t value ended rest guarded
  rw [ask_apply] at ended ⊢
  split at ended
  · cases ended
  · rename_i down
    rw [if_neg down]
    exact ⟨nofun, nofun, guarded⟩

theorem ask_follows (done total t : Nat) : (cancelFlag raised).Follows
    [.poll done total false, .update (progress done total)]
    ((ask raised progress done total : Timed SinkEvent (AnyError M) Unit) t) := by
  rw [ask_apply]
  split
  · exact ⟨nofun, .inr ⟨_, List.mem_singleton_self _, rfl⟩⟩
  · exact ⟨fun _ _ => rfl, .inl (List.prefix_refl _)⟩

end

/-- All that is asked and reported over a track: `0` to `total` of `total`, and as many passes as
`total`, each between one report and the next. -/
def halfPlan (progress : Nat → Nat → Progress) (total : Nat) : List SinkEvent :=
  trackPlan .pass (fun done => [.poll done total false, .update (progress done total)]) total

def SinkEvent.call : SinkEvent → Option (Nat × Nat)
  | .poll done total _ => some (done, total)
  | _ => none

/-- What is asked at each turn, and nothing at the passes, is what is read of a whole track. -/
theorem trackPlan_filterMap {α : Type} {read : SinkEvent → Option α} {seen : Nat → α}
    {asking : Nat → List SinkEvent} (total : Nat) (quiet : read .pass = none)
    (once : ∀ done, (asking done).filterMap read = [seen done]) :
    (trackPlan .pass asking total).filterMap read = (List.range (total + 1)).map seen := by
  have turn (done : Nat) : (asking done ++ [SinkEvent.pass]).filterMap read = [seen done] := by
    rw [List.filterMap_append, once, List.filterMap_cons_none quiet]
    rfl
  rw [trackPlan, List.filterMap_append, once, List.filterMap_flatMap, List.range_succ,
    List.map_append, List.range_eq_range', List.map_eq_flatMap]
  simp only [turn]
  rfl

theorem trackPlan_passes (asking : Nat → List SinkEvent) (total : Nat)
    (idle : ∀ done, (asking done).countP SinkEvent.isPass = 0) :
    (trackPlan .pass asking total).countP SinkEvent.isPass = total := by
  have turn (done : Nat) : (asking done ++ [SinkEvent.pass]).countP SinkEvent.isPass = 1 := by
    rw [List.countP_append, idle]
    rfl
  rw [trackPlan, List.countP_append, idle, List.countP_flatMap, Nat.add_zero]
  simp only [Function.comp_def, turn]
  rw [List.map_const', List.sum_replicate_nat, Nat.mul_one, List.length_range']

theorem halfPlan_calls (progress : Nat → Nat → Progress) (total : Nat) :
    (halfPlan progress total).filterMap SinkEvent.call =
      (List.range (total + 1)).map fun done => (done, total) :=
  trackPlan_filterMap total rfl fun _ => rfl

theorem halfPlan_passes (progress : Nat → Nat → Progress) (total : Nat) :
    (halfPlan progress total).countP SinkEvent.isPass = total :=
  trackPlan_passes _ total fun _ => rfl

section

variable {K M : Type} [Field K] [LinearOrder K] [FloorRing K] {raised : Nat → Bool}

def HybridError.Caused (e : HybridError K (AnyError M)) : Prop := e.caused = true

omit [Field K] [LinearOrder K] [FloorRing K] in
theorem HybridError.caused_track (e : OverTrackError K (AnyError M))
    (stopped : OverTrackError.Stopped Core.Caused e) : (HybridError.track e).Caused := by
  cases e with
  | failed e => exact stopped
  | noStride overlap => cases stopped
  | uncovered overlap => cases stopped
  | array => cases stopped

theorem Half.tracedRun_prompt (root : K → K) {channels : Nat} (overlap : K)
    (half : Half K (AnyError M) channels) (source : Audio K) (progress : Nat → Nat → Progress)
    (frames : Nat) : (cancelFlag raised).Prompt HybridError.Caused
      (half.tracedRun root overlap source raised progress frames) := by
  refine (Flag.prompt_lift _).bind fun _ => (Flag.prompt_lift _).bind fun input => ?_
  refine Flag.Prompt.bind ?_ fun _ => Flag.prompt_lift _
  exact (tracedTrack_prompt _ _ _ ask_prompt ask_clears rfl overlap).mapError
    HybridError.caused_track

omit [LinearOrder K] [FloorRing K] in
theorem toArray_width {channels : Nat} {mix : Audio K} {norm : Option (Normalisation K)}
    {input : Rows (Unit × Fin channels) K} (made : toArray channels mix norm = some input) :
    input.width = mix.frames := by
  simp only [toArray] at made
  split at made
  · rw [← Option.some.inj made]
  · cases made

theorem Half.tracedRun_follows (root : K → K) {channels : Nat} (overlap : K)
    (half : Half K (AnyError M) channels) (source : Audio K) (progress : Nat → Nat → Progress)
    (frames t : Nat) : (cancelFlag raised).Follows
      (halfPlan progress (chunks overlap half.model.chunk source.frames))
      (half.tracedRun root overlap source raised progress frames t) := by
  refine .lift_bind _ fun _ t => ?_
  refine (Flag.follows_lift _).bind fun input is => ?_
  -- The chunks are cut from the array, which is as wide as the track is long.
  have width := toArray_width (fitted_ok is)
  rw [← width]
  exact (tracedTrack_follows _ _ _ ask_follows overlap _).mapError.bind_silent fun _ _ =>
    Flag.follows_lift _

namespace HybridSeparator

theorem tracedSeparate_prompt (root : K → K) (separator : HybridSeparator K (AnyError M))
    (mix : Audio K) : (cancelFlag raised).Prompt HybridError.Caused
      (separator.tracedSeparate root raised mix) := by
  refine (Flag.prompt_lift _).bind fun _ => (update_prompt _).bind fun _ => ?_
  refine (Flag.prompt_lift _).bind fun _ => (update_prompt _).bind fun _ => ?_
  refine (Half.tracedRun_prompt ..).bind fun vocals =>
    (Half.tracedRun_prompt ..).bind fun drums => ?_
  exact (update_prompt _).bind fun _ => (update_prompt _).bind fun _ => Flag.prompt_lift _

def plan (span first second : Nat) : List SinkEvent :=
  [.update (.new .analysing), .update (within 0 0 0 1)] ++
    (halfPlan (within 0 span) first ++ (halfPlan (within span (units - span)) second ++
      [.update (within units 0 0 1), .update (.new .reconstructing)]))

theorem tracedSeparate_follows (root : K → K) (separator : HybridSeparator K (AnyError M))
    (mix : Audio K) (t : Nat) : ∃ second, (cancelFlag raised).Follows
      (plan separator.vocalsSpan
        (chunks separator.overlap separator.vocals.model.chunk mix.frames) second)
      (separator.tracedSeparate root raised mix t) := by
  -- What comes after the halves asks for nothing.
  have finish (vocals drums : List (List K)) (t : Nat) : (cancelFlag raised).Follows
      [.update (within units 0 0 1), .update (.new .reconstructing)]
      ((do
        Timed.emit fun _ => .update (within units 0 0 1)
        Timed.emit fun _ => .update (.new .reconstructing)
        Timed.lift (fitted (separator.assembled mix vocals drums)) :
          Timed SinkEvent (HybridError K (AnyError M)) (Stems K)) t) :=
    (Flag.follows_emit _).bind fun _ _ =>
      (Flag.follows_emit _).bind_silent fun _ _ => Flag.follows_lift _
  -- How often the second half asks is known only once the first has ended.
  let rest (second : Nat) : List SinkEvent :=
    halfPlan (within separator.vocalsSpan (units - separator.vocalsSpan)) second ++
      [.update (within units 0 0 1), .update (.new .reconstructing)]
  have halves (t : Nat) := Flag.Follows.bind_some rest
    (Half.tracedRun_follows root separator.overlap separator.vocals mix
      (within 0 separator.vocalsSpan) mix.frames t) fun vocals _ =>
        ⟨_, (Half.tracedRun_follows root separator.overlap separator.drums
          (separator.forDrums mix vocals) _ mix.frames _).bind fun drums _ => finish vocals drums _⟩
  let first := halfPlan (within 0 separator.vocalsSpan)
    (chunks separator.overlap separator.vocals.model.chunk mix.frames)
  refine Flag.Follows.bind_some
    (fun second => .update (.new .analysing) :: .update (within 0 0 0 1) :: (first ++ rest second))
    (Flag.follows_lift _) fun _ _ => ?_
  refine Flag.Follows.bind_some (fun second => .update (within 0 0 0 1) :: (first ++ rest second))
    (Flag.follows_emit _) fun _ _ => ?_
  refine Flag.Follows.bind_some (fun second => .update (within 0 0 0 1) :: (first ++ rest second))
    (Flag.follows_lift _) fun _ _ => ?_
  exact Flag.Follows.bind_some (fun second => first ++ rest second) (Flag.follows_emit _) fun _ _ =>
    halves _

end HybridSeparator

def answers (raised : Nat → Bool) (t done _total : Nat) : Except (AnyError M) Unit :=
  if raised (t + done * 3) then .error .cancelled else .ok ()

theorem halfPlan_length (progress : Nat → Nat → Progress) (total : Nat) :
    (halfPlan progress total).length = total * 3 + 2 := by
  rw [halfPlan, trackPlan, List.length_append, List.length_flatMap]
  simp

theorem Half.tracedRun_fst (root : K → K) {channels : Nat} (overlap : K)
    (half : Half K (AnyError M) channels) (source : Audio K) (progress : Nat → Nat → Progress)
    (frames t : Nat) : (half.tracedRun root overlap source raised progress frames t).1 =
      half.run root overlap source (answers raised t) frames := by
  -- Who is not stopped has asked once and reported once.
  have even (done total t : Nat) (asked : (ask (M := M) raised progress done total t).1 = .ok ()) :
      (ask (M := M) raised progress done total t).2.length = 2 := by
    rw [ask_apply] at asked ⊢
    split at asked
    · cases asked
    · rename_i down
      rw [if_neg down]
      rfl
  have run (input : Rows (Unit × Fin channels) K) (t : Nat) :=
    tracedTrack_fst .pass half.model input even overlap t
  have answered (t : Nat) : (fun done total =>
      (ask (M := M) raised progress done total (t + done * (2 + 1))).1) = answers raised t := by
    funext done total
    rw [ask_apply, answers]
    split <;> rfl
  rw [Half.tracedRun, Half.run, Timed.bind_fst]
  cases fitted (E := AnyError M) (Normalisation.of root source) with
  | error e => rfl
  | ok norm =>
      dsimp only [Timed.lift_apply]
      rw [ok_bind, ok_bind, Timed.bind_fst]
      cases fitted (E := AnyError M) (toArray channels source _) with
      | error e => rfl
      | ok input =>
          rw [Timed.lift_apply, ok_bind, ok_bind, Timed.bind_fst, Timed.mapError_apply, run,
            answered]
          rfl

theorem HybridSeparator.tracedSeparate_fst (root : K → K)
    (separator : HybridSeparator K (AnyError M)) (mix : Audio K) (t : Nat) :
    (separator.tracedSeparate root raised mix t).1 =
      separator.separate root (answers raised (t + 2)) (answers raised (t + 2 +
        (chunks separator.overlap separator.vocals.model.chunk mix.frames * 3 + 2))) mix := by
  have first (t : Nat) (vocals : List (List K))
      (sung : (separator.vocals.tracedRun root separator.overlap mix raised
        (within 0 separator.vocalsSpan) mix.frames t).1 = .ok vocals) :=
    (Half.tracedRun_follows root separator.overlap separator.vocals mix
      (within 0 separator.vocalsSpan) mix.frames t).1 vocals sung
  rw [tracedSeparate, separate, estimates, Timed.bind_fst]
  cases separator.checkGeometry mix with
  | error e => rfl
  | ok _ =>
      rw [Timed.lift_apply, ok_bind, ok_bind, Timed.emit_bind, Timed.bind_fst]
      by_cases silent : mix.frames = 0
      · rw [ensure, if_neg (not_not.mpr silent), if_pos silent]
        rfl
      · rw [ensure, if_pos silent, if_neg silent, Timed.lift_apply, ok_bind, Timed.emit_bind,
          Timed.bind_fst]
        dsimp only [List.length_nil, Nat.add_zero]
        cases sung : (separator.vocals.tracedRun root separator.overlap mix raised
            (within 0 separator.vocalsSpan) mix.frames (t + 1 + 1)).1 with
        | error e =>
            have ran : separator.vocals.run root separator.overlap mix (answers raised (t + 2))
                mix.frames = .error e := (Half.tracedRun_fst ..).symm.trans sung
            rw [ran]
            rfl
        | ok vocals =>
            have ran : separator.vocals.run root separator.overlap mix (answers raised (t + 2))
                mix.frames = .ok vocals := (Half.tracedRun_fst ..).symm.trans sung
            rw [ran, ok_bind, Timed.bind_fst, first _ _ sung, Half.tracedRun_fst, halfPlan_length,
              ok_bind]
            cases separator.drums.run root separator.overlap (separator.forDrums mix vocals)
              (answers raised (t + 2 + (chunks separator.overlap separator.vocals.model.chunk
                mix.frames * 3 + 2))) mix.frames <;> rfl

end

end Stemd.Core
