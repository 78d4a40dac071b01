import Stemd.Store.Sound

/-! Rule 1 and those who are still collecting.

A hit restarts an entry's idle clock under the lock that rule 1 holds; a stem fetch does
so without it, and so may come after the last use has been read, or in the middle of a hit. -/

set_option autoImplicit false

namespace Stemd.Store

open Stemd.Semantics

variable {Key : Type}

/-- The entry of which rule 1 has read a last use that is too long ago, and that it has not
yet kept or deleted. -/
def Cache.considered (cache : Cache Key) : Option Nat :=
  match cache.sweep with
  | .weighing _ idle entry _ => if cache.unfetchedTtl < idle then some entry else none
  | .condemned _ entry _ | .removing entry (.ageing _ _) => some entry
  | _ => none

def Sweep.now : Sweep → Option Nat
  | .touching _ _ now => some now
  | .ageing now _ | .weighing now _ _ _ | .condemned now _ _ => some now
  | .removing _ (.ageing now _) => some now
  | _ => none

def Cache.reaps (cache : Cache Key) : Event Key → Option Nat
  | .sweeper .marked => match cache.sweep with
      | .condemned _ entry _ => some entry
      | _ => none
  | .sweeper (.unlinked _) | .sweeper .removed | .sweeper .failed => match cache.sweep with
      | .removing entry (.ageing _ _) => some entry
      | _ => none
  | _ => none

/-- Nobody fetches from an entry that rule 1 already finds unused for too long, or from one that
a hit then leaves an earlier reading of the clock in. -/
def InTime (cache : Cache Key) : Event Key → Prop
  | .fetch entry _ => cache.considered ≠ some entry
  | .getter caller => match cache.sweep with
      | .touching holder entry now => holder = caller → (cache.heap entry).lastUsed ≤ now
      | _ => True
  | _ => True

/-- A publish has its entry in the index before the clock moves on from the reading it took. -/
def Prompt (cache : Cache Key) : Event Key → Prop
  | .publisher (.inserted _) => match cache.publishing with
      | .inserting entry => cache.clock ≤ (cache.heap entry).lastUsed
      | _ => True
  | _ => True

instance (cache : Cache Key) (event : Event Key) : Decidable (InTime cache event) := by
  induction event using Event.casesOn with
  | fetch entry name => exact inferInstanceAs (Decidable (cache.considered ≠ some entry))
  | getter caller =>
      unfold InTime
      generalize cache.sweep = sweep
      induction sweep using Sweep.casesOn with
      | touching holder entry now =>
          exact inferInstanceAs (Decidable (holder = caller → (cache.heap entry).lastUsed ≤ now))
      | _ => exact inferInstanceAs (Decidable True)
  | _ => exact inferInstanceAs (Decidable True)

instance (cache : Cache Key) (event : Event Key) : Decidable (Prompt cache event) := by
  induction event using Event.casesOn with
  | publisher step =>
      induction step using PublishStep.casesOn with
      | inserted order =>
          unfold Prompt
          generalize cache.publishing = publishing
          induction publishing using Publishing.casesOn with
          | inserting entry =>
              exact inferInstanceAs (Decidable (cache.clock ≤ (cache.heap entry).lastUsed))
          | _ => exact inferInstanceAs (Decidable True)
      | _ => exact inferInstanceAs (Decidable True)
  | _ => exact inferInstanceAs (Decidable True)

variable [DecidableEq Key]

/-- The entry an event publishes, hits or fetches a stem of; a hit is where it reads the clock. -/
def Cache.uses (cache : Cache Key) : Event Key → Option Nat
  | .publisher (.inserted _) => match cache.publishing with
      | .inserting entry => some entry
      | _ => none
  | .getter caller => match cache.getting[caller]? with
      | some (.looking key) => cache.lookup key
      | _ => none
  | .fetch entry _ => some entry
  | _ => none

structure Timed (cache : Cache Key) : Prop where
  used : ∀ entry, (cache.heap entry).lastUsed ≤ cache.clock
  begun : ∀ now ∈ cache.sweep.now, now ≤ cache.clock
  weighing : ∀ now idle entry todo, cache.sweep = .weighing now idle entry todo →
    cache.unfetchedTtl < idle → cache.unfetchedTtl < now - (cache.heap entry).lastUsed
  condemned : ∀ now entry todo, cache.sweep = .condemned now entry todo ∨
    cache.sweep = .removing entry (.ageing now todo) →
      cache.unfetchedTtl < now - (cache.heap entry).lastUsed

omit [DecidableEq Key] in
theorem Timed.carry {cache after : Cache Key} (timed : Timed cache)
    (clock : cache.clock ≤ after.clock) (ttl : after.unfetchedTtl = cache.unfetchedTtl)
    (sweep : after.sweep = cache.sweep)
    (used : ∀ entry, (after.heap entry).lastUsed ≤ after.clock)
    (kept : ∀ entry, cache.considered = some entry →
      (after.heap entry).lastUsed = (cache.heap entry).lastUsed) : Timed after := by
  refine ⟨used, ?_, ?_, ?_⟩
  · rw [sweep]
    exact fun now is => (timed.begun now is).trans clock
  · rw [sweep, ttl]
    intro now idle entry todo is late
    rw [kept entry (by simp [Cache.considered, is, late])]
    exact timed.weighing now idle entry todo is late
  · rw [sweep, ttl]
    intro now entry todo is
    rw [kept entry (by rcases is with is | is <;> simp [Cache.considered, is])]
    exact timed.condemned now entry todo is

omit [DecidableEq Key] in
theorem Timed.unconsidered {cache : Cache Key}
    (used : ∀ entry, (cache.heap entry).lastUsed ≤ cache.clock)
    (begun : ∀ now ∈ cache.sweep.now, now ≤ cache.clock)
    (nobody : cache.considered = none) : Timed cache := by
  refine ⟨used, begun, fun now idle entry todo is late => ?_, fun now entry todo is => ?_⟩
  · simp [Cache.considered, is, late] at nobody
  · rcases is with is | is <;> simp [Cache.considered, is] at nobody

omit [DecidableEq Key] in
theorem Timed.caps {cache after : Cache Key} {order : List Nat} (timed : Timed cache)
    (caps : cache.Caps order after) : Timed after := by
  cases caps with
  | fits fits => exact .unconsidered timed.used (fun _ is => by cases is) rfl
  | exceeds exceeds => exact .unconsidered timed.used (fun _ is => by cases is) rfl

omit [DecidableEq Key] in
theorem considered_made {cache : Cache Key} {entry : Nat} (sound : Sound cache)
    (considered : cache.considered = some entry) : entry < cache.made := by
  have inside : entry ∈ cache.entries := by
    have swept := sound.swept
    unfold Cache.considered at considered
    generalize cache.sweep = sweep at swept considered
    cases sweep with
    | weighing now idle other todo =>
        dsimp only at considered
        split at considered <;> cases considered
        exact swept.2 List.mem_cons_self
    | condemned now other todo =>
        cases considered
        exact swept.2 List.mem_cons_self
    | removing other rest =>
        cases rest <;> cases considered
        exact swept.2 List.mem_cons_self
    | _ => cases considered
  exact sound.made entry inside

omit [DecidableEq Key] in
theorem stamped_used {cache : Cache Key} {entry : Nat} {f : Entry Key → Entry Key}
    (timed : Timed cache) (now : (f (cache.heap entry)).lastUsed ≤ cache.clock) (other : Nat) :
    ((cache.change entry f).heap other).lastUsed ≤ cache.clock := by
  rw [Cache.change_heap]
  split
  · exact now
  · exact timed.used other

theorem Timed.publishes {cache after : Cache Key} {step : PublishStep} (timed : Timed cache)
    (sound : Sound cache) (publishes : Publishes cache step after) : Timed after := by
  cases publishes with
  | built key shipped here =>
      refine timed.carry (Nat.le_refl _) rfl rfl (fun entry => ?_) fun entry considered => ?_
      · simp only [Function.update_apply]
        split
        · exact Nat.le_refl _
        · exact timed.used entry
      · have known := considered_made sound considered
        simp only [Function.update_of_ne (Nat.ne_of_lt known)]
  | inserted entry order after here free iterates caps =>
      have indexed : Timed (cache.indexed entry) :=
        timed.carry (Nat.le_refl _) rfl rfl timed.used fun _ _ => rfl
      exact indexed.caps caps
  | _ => exact timed.carry (Nat.le_refl _) rfl rfl timed.used fun _ _ => rfl

omit [DecidableEq Key] in
theorem evict_lastUsed (cache : Cache Key) (entry other : Nat) :
    ((cache.change entry Entry.evict).heap other).lastUsed = (cache.heap other).lastUsed :=
  cache.change_read Entry.lastUsed rfl other

omit [DecidableEq Key] in
theorem evicted_used {cache : Cache Key} {entry : Nat} (timed : Timed cache) (other : Nat) :
    ((cache.change entry Entry.evict).heap other).lastUsed ≤ cache.clock :=
  evict_lastUsed cache entry other ▸ timed.used other

theorem Timed.sweeps {cache after : Cache Key} {step : SweepStep} (timed : Timed cache)
    (sweeps : Sweeps cache step after) : Timed after := by
  cases sweeps with
  | weighing now entry todo here =>
      have begun := timed.begun now (by rw [here]; rfl)
      refine ⟨timed.used, fun _ is => (by cases is; exact begun), ?_,
        fun _ _ _ is => by rcases is with is | is <;> cases is⟩
      intro now' idle other todo' is late
      cases is
      exact late
  | kept now idle entry todo here =>
      have begun := timed.begun now (by rw [here]; rfl)
      exact .unconsidered timed.used (fun _ is => by cases is; exact begun) rfl
  | condemned now idle entry todo here old =>
      have begun := timed.begun now (by rw [here]; rfl)
      refine ⟨timed.used, fun _ is => (by cases is; exact begun), fun _ _ _ _ is => (by cases is),
        fun now' other todo' is => ?_⟩
      rcases is with is | is <;> cases is
      exact timed.weighing now idle entry todo here old
  | reaped now entry todo here =>
      have begun := timed.begun now (by rw [here]; rfl)
      refine ⟨evicted_used timed, fun _ is => (by cases is; exact begun),
        fun _ _ _ _ is => (by cases is), fun now' other todo' is => ?_⟩
      rcases is with is | is <;> cases is
      rw [evict_lastUsed]
      exact timed.condemned now entry todo (.inl here)
  | emptied entry todo here => exact .unconsidered (evicted_used timed) (fun _ is => by cases is) rfl
  | unlinked entry rest name here =>
      exact timed.carry (Nat.le_refl _) rfl rfl timed.used fun _ _ => rfl
  | removed entry rest here _ | failed entry rest here =>
      cases rest with
      | ageing now todo =>
          have begun := timed.begun now (by rw [here]; rfl)
          exact .unconsidered timed.used (fun _ is => by cases is; exact begun) rfl
      | rotating read victims total => exact .unconsidered timed.used (fun _ is => by cases is) rfl
      | clearing todo => exact .unconsidered timed.used (fun _ is => by cases is) rfl
  | aged now order after here iterates caps => exact timed.caps caps
  | rotated read entry victims total here exceeds =>
      exact .unconsidered (evicted_used timed) (fun _ is => by cases is) rfl
  | read _ _ _ _ | sorted _ _ | released _ _ _ _ _ | cleared _ =>
      exact .unconsidered timed.used (fun _ is => by cases is) rfl

theorem Timed.gets {cache after : Cache Key} {caller : Nat} {getting next : Getting Key}
    (timed : Timed cache) (gets : Gets cache caller getting after next) : Timed after := by
  cases gets with
  | hit key entry free found =>
      exact .unconsidered timed.used (fun _ is => by cases is; exact Nat.le_refl _) rfl
  | touched entry now here =>
      have begun := timed.begun now (by rw [here]; rfl)
      exact .unconsidered (stamped_used timed begun) (fun _ is => by cases is) rfl
  | dropped entry free held =>
      exact timed.carry (Nat.le_refl _) rfl rfl (evicted_used timed)
        fun other considered => by simp [Cache.considered, free] at considered
  | _ => exact timed

theorem Timed.move {cache after : Cache Key} {event : Event Key} (timed : Timed cache)
    (sound : Sound cache) (inTime : InTime cache event) (move : Move cache event after) :
    Timed after := by
  cases move with
  | publisher publishes => exact timed.publishes sound publishes
  | ages order free iterates =>
      exact .unconsidered timed.used (fun _ is => by cases is; exact Nat.le_refl _) rfl
  | caps order after free iterates caps => exact timed.caps caps
  | clear order free iterates => exact .unconsidered timed.used (fun _ is => by cases is) rfl
  | sweeper sweeps => exact timed.sweeps sweeps
  | @getter caller getting next moved here gets =>
      exact (timed.gets gets).carry (Nat.le_refl _) rfl rfl (timed.gets gets).used fun _ _ => rfl
  | fetch entry name known =>
      refine timed.carry (Nat.le_refl _) rfl rfl (stamped_used timed (Nat.le_refl _))
        fun other considered => ?_
      rw [Cache.change_heap, if_neg]
      rintro rfl
      exact inTime considered
  | tick =>
      exact timed.carry (Nat.le_succ _) rfl rfl (fun entry => (timed.used entry).trans
        (Nat.le_succ _)) fun _ _ => rfl
  | publish _ _ _ | get _ =>
      exact timed.carry (Nat.le_refl _) rfl rfl timed.used fun _ _ => rfl

theorem Move.lastUsed_le {cache after : Cache Key} {event : Event Key} (timed : Timed cache)
    (inTime : InTime cache event) (move : Move cache event after) (entry : Nat) :
    (cache.heap entry).lastUsed ≤ (after.heap entry).lastUsed := by
  have evicted : ∀ other, (cache.heap entry).lastUsed ≤
      ((cache.change other Entry.evict).heap entry).lastUsed := fun other =>
    Nat.le_of_eq (evict_lastUsed cache other entry).symm
  have stamped : ∀ (other : Nat) (f : Entry Key → Entry Key),
      (cache.heap other).lastUsed ≤ (f (cache.heap other)).lastUsed →
        (cache.heap entry).lastUsed ≤ ((cache.change other f).heap entry).lastUsed := by
    intro other f later
    rw [Cache.change_heap]
    split
    · rename_i same
      exact same ▸ later
    · exact Nat.le_refl _
  cases move with
  | publisher publishes =>
      cases publishes with
      | built key shipped here =>
          simp only [Function.update_apply]
          split
          · exact timed.used entry
          · exact Nat.le_refl _
      | inserted other order after here free iterates caps => cases caps <;> exact Nat.le_refl _
      | _ => exact Nat.le_refl _
  | caps order after free iterates caps => cases caps <;> exact Nat.le_refl _
  | sweeper sweeps =>
      cases sweeps with
      | aged now order after here iterates caps => cases caps <;> exact Nat.le_refl _
      | reaped _ _ _ _ | emptied _ _ _ | rotated _ _ _ _ _ _ => exact evicted _
      | _ => exact Nat.le_refl _
  | getter caller here gets =>
      cases gets with
      | touched other now held =>
          simp only [InTime, held, forall_const] at inTime
          exact stamped other _ inTime
      | dropped other free held => exact evicted other
      | _ => exact Nat.le_refl _
  | fetch other name known => exact stamped other _ (timed.used other)
  | _ => exact Nat.le_refl _

def Cache.UsedSince (cache : Cache Key) (time entry : Nat) : Prop :=
  time ≤ (cache.heap entry).lastUsed ∨
    ∃ caller now, cache.sweep = .touching caller entry now ∧ time ≤ now

theorem Move.usedSince {cache after : Cache Key} {event : Event Key} {time entry : Nat}
    (timed : Timed cache) (inTime : InTime cache event) (move : Move cache event after)
    (used : cache.UsedSince time entry) : after.UsedSince time entry := by
  rcases used with stamped | ⟨holder, now, touching, later⟩
  · exact .inl (stamped.trans (move.lastUsed_le timed inTime entry))
  · have still : after.sweep = cache.sweep → after.UsedSince time entry := fun same =>
      .inr ⟨holder, now, same.trans touching, later⟩
    have locked : ∀ {sweep : Sweep}, cache.sweep = sweep →
        (∀ caller now, sweep ≠ .touching caller entry now) → after.UsedSince time entry :=
      fun is apart => (apart holder now (is.symm.trans touching)).elim
    cases move with
    | publisher publishes =>
        cases publishes with
        | inserted other order after here free iterates caps =>
            exact locked free fun _ _ is => by cases is
        | _ => exact still rfl
    | ages _ free _ | caps _ _ free _ _ | clear _ free _ =>
        exact locked free fun _ _ is => by cases is
    | sweeper sweeps =>
        cases sweeps with
        | unlinked _ _ _ here => exact still rfl
        | weighing _ _ _ here | read _ _ _ here | kept _ _ _ _ here | condemned _ _ _ _ here _
        | reaped _ _ _ here | emptied _ _ here | removed _ _ here _ | failed _ _ here
        | aged _ _ _ here _ _ | sorted _ here | released _ _ _ here _ | rotated _ _ _ _ here _
        | cleared here =>
            exact locked here fun _ _ is => by cases is
    | getter caller here gets =>
        cases gets with
        | hit key other free found => exact locked free fun _ _ is => by cases is
        | touched other now' held =>
            cases held.symm.trans touching
            refine .inl ?_
            simpa [Cache.change, Entry.touch] using later
        | _ => exact still rfl
    | _ => exact still rfl

theorem Move.used {cache after : Cache Key} {event : Event Key} (prompt : Prompt cache event)
    (move : Move cache event after) {entry : Nat} (uses : cache.uses event = some entry) :
    after.UsedSince cache.clock entry := by
  cases move with
  | publisher publishes =>
      cases publishes with
      | inserted other order after here free iterates caps =>
          simp only [Cache.uses, here, Option.some.injEq] at uses
          subst uses
          simp only [Prompt, here] at prompt
          cases caps <;> exact .inl prompt
      | failed key seq fails later => rcases fails.step with rfl | rfl <;> cases uses
      | _ => cases uses
  | getter caller here gets =>
      simp only [Cache.uses, here] at uses
      cases gets with
      | hit key other free found =>
          cases found.symm.trans uses
          exact .inr ⟨caller, cache.clock, rfl, Nat.le_refl _⟩
      | missed key unknown => cases unknown.symm.trans uses
      | _ => cases uses
  | fetch other name known =>
      cases uses
      refine .inl ?_
      simp [Cache.change, Entry.markFetched]
  | _ => cases uses

omit [DecidableEq Key] in
/-- What rule 1 deletes has not been used for longer than is allowed. -/
theorem Timed.reaps {cache : Cache Key} {event : Event Key} {time entry : Nat}
    (timed : Timed cache) (reaps : cache.reaps event = some entry)
    (used : cache.UsedSince time entry) : cache.unfetchedTtl < cache.clock - time := by
  have doomed : ∃ now todo, cache.sweep = .condemned now entry todo ∨
      cache.sweep = .removing entry (.ageing now todo) := by
    cases event with
    | sweeper step =>
        cases step with
        | marked =>
            simp only [Cache.reaps] at reaps
            split at reaps <;> cases reaps
            rename_i now todo here
            exact ⟨now, todo, .inl here⟩
        | unlinked _ | removed | failed =>
            simp only [Cache.reaps] at reaps
            split at reaps <;> cases reaps
            rename_i now todo here
            exact ⟨now, todo, .inr here⟩
        | _ => cases reaps
    | _ => cases reaps
  obtain ⟨now, todo, is⟩ := doomed
  have old := timed.condemned now entry todo is
  have begun := timed.begun now (by rcases is with is | is <;> rw [is] <;> rfl)
  have stamped : time ≤ (cache.heap entry).lastUsed := used.resolve_right fun touching => by
    obtain ⟨caller, reading, here, -⟩ := touching
    rcases is with is | is <;> cases is.symm.trans here
  omega

section runs

variable [Inhabited Key] {maxBytes unfetchedTtl : Nat}

theorem timed_of_reaches {cache : Cache Key}
    (run : (Cache.system maxBytes unfetchedTtl).Reaches InTime (.new maxBytes unfetchedTtl) cache) :
    Timed cache :=
  run.invariant ⟨fun _ => Nat.le_refl 0, fun _ is => (by cases is), fun _ _ _ _ is => (by cases is),
      fun _ _ _ is => by rcases is with is | is <;> cases is⟩
    fun _ _ _ before timed inTime done =>
      timed.move (sound_of_reaches before) inTime (move_of_step done)

theorem usedSince_of_reaches {before cache : Cache Key} {time entry : Nat}
    (reached : (Cache.system maxBytes unfetchedTtl).Reaches InTime (.new maxBytes unfetchedTtl)
      before)
    (run : (Cache.system maxBytes unfetchedTtl).Reaches InTime before cache)
    (used : before.UsedSince time entry) : cache.UsedSince time entry :=
  run.invariant (P := fun cache => cache.UsedSince time entry) used
    fun _ _ _ path used inTime done =>
      (move_of_step done).usedSince (timed_of_reaches (reached.trans path)) inTime used

/-- Rule 1 deletes nothing that was published, hit or fetched from within the time allowed. -/
theorem never_cut_off (maxBytes unfetchedTtl : Nat) {before used cache : Cache Key}
    {event last : Event Key} {entry : Nat}
    (reached : (Cache.system maxBytes unfetchedTtl).Reaches InTime (.new maxBytes unfetchedTtl)
      before)
    (inTime : InTime before event) (prompt : Prompt before event)
    (uses : before.uses event = some entry) (done : before.step event = some used)
    (run : (Cache.system maxBytes unfetchedTtl).Reaches InTime used cache)
    (reaps : cache.reaps last = some entry) :
    unfetchedTtl < cache.clock - before.clock := by
  have after : (Cache.system maxBytes unfetchedTtl).Reaches InTime (.new maxBytes unfetchedTtl)
      used := .tail reached inTime done
  have since := usedSince_of_reaches after run ((move_of_step done).used prompt uses)
  have old := (timed_of_reaches (after.trans run)).reaps reaps since
  rwa [(settings_of_reaches (after.trans run)).2] at old

end runs

def published (key : Nat) (stem : Shipped) : List (Event Nat) :=
  [.publish key [stem], .publisher .converted, .publisher .created, .publisher (.wrote 0),
    .publisher .joined, .publisher .looked, .publisher .renamed, .publisher .built]

def vocals : Shipped := ⟨"vocals", "vocals.flac", [102, 76, 97, 67]⟩

/-- An entry nobody came back for goes when its time is up. -/
theorem forgotten_entry_is_reaped : ∃ before cache : Cache Nat,
    before.uses (.publisher (.inserted [0])) = some 0 ∧
      cache.reaps (.sweeper .marked) = some 0 ∧ 1 < cache.clock - before.clock := by
  have reached : ∃ before : Cache Nat,
      (Cache.system 4 1).Reaches InTime (.new 4 1) before ∧
        (InTime before (.publisher (.inserted [0])) ∧ Prompt before (.publisher (.inserted [0]))) ∧
          before.uses (.publisher (.inserted [0])) = some 0 ∧
            (before.step (.publisher (.inserted [0]))).any (fun used =>
              ((Cache.system 4 1).replay InTime used
                [.tick, .tick, .reap [0], .sweeper .read, .sweeper .weighed]).any fun cache =>
                  decide (cache.reaps (.sweeper .marked) = some 0)) = true :=
    System.exists_of_replay (published 7 vocals) (by decide)
  obtain ⟨before, reached, ⟨inTime, prompt⟩, uses, found⟩ := reached
  obtain ⟨used, done, found⟩ := (Option.any_eq_true _ _).mp found
  obtain ⟨cache, run, reaps⟩ := System.exists_of_replay _ found
  exact ⟨before, cache, uses, reaps, never_cut_off 4 1 reached inTime prompt uses done run reaps⟩

/-- A stem fetched once rule 1 has made up its mind does not save the entry. -/
theorem fetch_does_not_save_entry : ∃ before used cache : Cache Nat,
    (Cache.system 4 1).Reachable before ∧ before.uses (.fetch 0 "vocals") = some 0 ∧
      before.step (.fetch 0 "vocals") = some used ∧
        (Cache.system 4 1).Reaches System.Any used cache ∧
          cache.reaps (.sweeper .marked) = some 0 ∧ cache.clock - before.clock = 0 := by
  have reached : ∃ before : Cache Nat, (Cache.system 4 1).Reachable before ∧
      (before.step (.fetch 0 "vocals")).any (fun used => decide
        (used.reaps (.sweeper .marked) = some 0 ∧ used.clock - before.clock = 0)) = true :=
    System.exists_of_replay (published 7 vocals ++
      [.publisher (.inserted [0]), .tick, .tick, .reap [0], .sweeper .read, .sweeper .weighed])
      (by decide)
  obtain ⟨before, reached, found⟩ := reached
  obtain ⟨used, done, found⟩ := (Option.any_eq_true _ _).mp found
  obtain ⟨reaps, clock⟩ := of_decide_eq_true found
  exact ⟨before, used, used, reached, rfl, done, .refl, reaps, clock⟩

end Stemd.Store
