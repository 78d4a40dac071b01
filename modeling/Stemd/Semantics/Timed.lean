import Mathlib.Data.List.Basic

/-! Computations that leave events behind and may be called off.

What a computation comes to and the events in it depend on how many events there were before it:
that is the time, and a flag that is raised from outside is raised at one. Between one piece of
work and the next the flag is asked for, and who finds it raised goes no further. -/

set_option autoImplicit false

namespace Stemd.Semantics

variable {V E E' α β : Type}

/-- From the number of events before it, a result and the events on the way there. -/
def Timed (V E α : Type) := Nat → Except E α × List V

namespace Timed

def pure (value : α) : Timed V E α := fun _ => (.ok value, [])

def bind (first : Timed V E α) (next : α → Timed V E β) : Timed V E β := fun t =>
  match first t with
  | (.ok value, events) =>
    ((next value (t + events.length)).1, events ++ (next value (t + events.length)).2)
  | (.error e, events) => (.error e, events)

instance : Monad (Timed V E) where
  pure := pure
  bind := bind

def lift (result : Except E α) : Timed V E α := fun _ => (result, [])

def emit (event : Nat → V) : Timed V E Unit := fun t => (.ok (), [event t])

def now : Timed V E Nat := fun t => (.ok t, [])

def mapError (change : E → E') (m : Timed V E α) : Timed V E' α := fun t =>
  ((m t).1.mapError change, (m t).2)

theorem bind_cases (first : Timed V E α) (next : α → Timed V E β) (t : Nat) :
    (∃ e, (first t).1 = .error e ∧ (first >>= next) t = (.error e, (first t).2)) ∨
    ∃ value, (first t).1 = .ok value ∧ (first >>= next) t =
      ((next value (t + (first t).2.length)).1,
        (first t).2 ++ (next value (t + (first t).2.length)).2) := by
  have unfolded : (first >>= next) t = bind first next t := rfl
  rcases outcome : first t with ⟨_ | value, events⟩
  · exact .inl ⟨_, rfl, by rw [unfolded, bind, outcome]⟩
  · exact .inr ⟨value, rfl, by rw [unfolded, bind, outcome]⟩

@[simp] theorem bind_fst (first : Timed V E α) (next : α → Timed V E β) (t : Nat) :
    ((first >>= next) t).1 =
      (first t).1 >>= fun value => (next value (t + (first t).2.length)).1 := by
  rcases bind_cases first next t with ⟨e, failed, outcome⟩ | ⟨value, ended, outcome⟩
  · rw [outcome, failed]
    rfl
  · rw [outcome, ended]
    rfl

theorem bind_ok {first : Timed V E α} {next : α → Timed V E β} {t : Nat} {result : β}
    (ended : ((first >>= next) t).1 = .ok result) :
    ∃ value, (first t).1 = .ok value ∧ (next value (t + (first t).2.length)).1 = .ok result ∧
      ((first >>= next) t).2 = (first t).2 ++ (next value (t + (first t).2.length)).2 := by
  rcases bind_cases first next t with ⟨e, -, outcome⟩ | ⟨value, went, outcome⟩
  · rw [outcome] at ended
    cases ended
  · rw [outcome] at ended ⊢
    exact ⟨value, went, ended, rfl⟩

@[simp] theorem lift_apply (result : Except E α) (t : Nat) :
    (lift result : Timed V E α) t = (result, []) := rfl

@[simp] theorem now_bind (next : Nat → Timed V E β) (t : Nat) : (now >>= next) t = next t t := rfl

@[simp] theorem emit_bind (event : Nat → V) (next : Unit → Timed V E β) (t : Nat) :
    (emit event >>= next) t = ((next () (t + 1)).1, event t :: (next () (t + 1)).2) := rfl

@[simp] theorem mapError_apply (change : E → E') (m : Timed V E α) (t : Nat) :
    m.mapError change t = ((m t).1.mapError change, (m t).2) := rfl

end Timed

/-- Which events ask for the flag, and what they find; which begin a piece of work; and when the
flag is up. -/
structure Flag (V : Type) where
  asks : V → Option Bool
  works : V → Bool
  raised : Nat → Bool

namespace Flag

variable (flag : Flag V)

/-- Each piece of work has had the flag asked for since the last. -/
def guarded : Bool → List V → Prop
  | _, [] => True
  | armed, v :: rest =>
    (flag.works v = true → armed = true) ∧
      guarded (!flag.works v && (armed || (flag.asks v).isSome)) rest

/-- The flag is asked for as it is, and finding it raised is the end, with an error that says
so. -/
structure Heeds (stopped : E → Prop) (m : Timed V E α) : Prop where
  honest : ∀ t i v found, (m t).2[i]? = some v → flag.asks v = some found →
    found = flag.raised (t + i)
  stops : ∀ t i v, (m t).2[i]? = some v → flag.asks v = some true →
    i + 1 = (m t).2.length ∧ ∃ e, (m t).1 = .error e ∧ stopped e

def Guards (armed : Bool) (m : Timed V E α) : Prop := ∀ t, flag.guarded armed (m t).2

def Clears (m : Timed V E α) : Prop := ∀ t value, (m t).1 = .ok value →
  ∀ rest, flag.guarded true rest → flag.guarded false ((m t).2 ++ rest)

structure Prompt (stopped : E → Prop) (m : Timed V E α) : Prop extends
    flag.Heeds stopped m where
  guards : flag.Guards false m

/-- The events are those planned if it ends well, and some first of them unless it was called
off. -/
def Follows (plan : List V) (outcome : Except E α × List V) : Prop :=
  (∀ value, outcome.1 = .ok value → outcome.2 = plan) ∧
    (outcome.2 <+: plan ∨ ∃ v ∈ outcome.2, flag.asks v = some true)

variable {flag}

theorem guarded_mono {events : List V} {armed armed' : Bool} (more : armed = true → armed' = true)
    (guarded : flag.guarded armed events) : flag.guarded armed' events := by
  induction events generalizing armed armed' with
  | nil => trivial
  | cons v rest ih =>
      refine ⟨fun works => more (guarded.1 works), ih (fun left => ?_) guarded.2⟩
      rw [Bool.and_eq_true, Bool.or_eq_true] at left ⊢
      exact ⟨left.1, left.2.imp_left more⟩

theorem guarded_append {events rest : List V} {armed : Bool} (first : flag.guarded armed events)
    (second : flag.guarded false rest) : flag.guarded armed (events ++ rest) := by
  induction events generalizing armed with
  | nil => exact guarded_mono (fun off => (Bool.false_ne_true off).elim) second
  | cons v tail ih => exact ⟨first.1, ih first.2⟩

theorem asked_before {events : List V} (guarded : flag.guarded false events) {j : Nat} {v : V}
    (here : events[j]? = some v) (works : flag.works v = true) :
    ∃ p < j, ∃ w, events[p]? = some w ∧ (flag.asks w).isSome = true := by
  induction events generalizing j with
  | nil => cases here
  | cons first rest ih =>
      obtain ⟨idle, guarded⟩ := guarded
      obtain _ | j := j
      · obtain rfl := Option.some.inj here
        cases idle works
      · by_cases asked : (flag.asks first).isSome = true
        · exact ⟨0, Nat.succ_pos j, first, rfl, asked⟩
        · rw [Bool.not_eq_true] at asked
          rw [asked, Bool.or_false, Bool.and_false] at guarded
          obtain ⟨p, before, found⟩ := ih guarded here
          exact ⟨p + 1, Nat.succ_lt_succ before, found⟩

theorem asked_between {events : List V} {armed : Bool} (guarded : flag.guarded armed events)
    {i j : Nat} {v w : V} (before : i < j) (first : events[i]? = some v)
    (works : flag.works v = true) (second : events[j]? = some w) (works' : flag.works w = true) :
    ∃ p, i < p ∧ p < j ∧ ∃ u, events[p]? = some u ∧ (flag.asks u).isSome = true := by
  induction events generalizing armed i j with
  | nil => cases first
  | cons head rest ih =>
      obtain ⟨j, rfl⟩ := Nat.exists_eq_add_of_lt before
      rw [List.getElem?_cons_succ] at second
      obtain _ | i := i
      · obtain rfl := Option.some.inj first
        -- Work uses up what was cleared for it.
        have later : flag.guarded false rest := by simpa [works] using guarded.2
        obtain ⟨p, within, found⟩ := asked_before later second works'
        exact ⟨p + 1, Nat.succ_pos p, by omega, found⟩
      · obtain ⟨p, after, within, found⟩ := ih guarded.2 (by omega) first second
        exact ⟨p + 1, by omega, by omega, found⟩

variable {stopped : E → Prop} {m : Timed V E α}

/-- Once the flag is up, at most one more piece of work is begun. -/
theorem Prompt.one_more (prompt : flag.Prompt stopped m) {moment : Nat}
    (raised : ∀ t, moment ≤ t → flag.raised t = true) {i j : Nat} {v w : V}
    (late : moment ≤ i) (late' : moment ≤ j) (first : (m 0).2[i]? = some v)
    (works : flag.works v = true) (second : (m 0).2[j]? = some w) (works' : flag.works w = true) :
    i = j := by
  have apart (i j : Nat) (v w : V) (late : moment ≤ i) (before : i < j)
      (first : (m 0).2[i]? = some v) (works : flag.works v = true)
      (second : (m 0).2[j]? = some w) (works' : flag.works w = true) : False := by
    obtain ⟨p, after, within, u, found, asked⟩ :=
      asked_between (prompt.guards 0) before first works second works'
    obtain ⟨answer, is⟩ := Option.isSome_iff_exists.mp asked
    have up : answer = true := by
      rw [prompt.honest 0 p u answer found is, Nat.zero_add]
      exact raised p (by omega)
    -- Whoever finds the flag up leaves no event behind, so there is none at the second place.
    have last := (prompt.stops 0 p u found (up ▸ is)).1
    have inside := (List.getElem?_eq_some_iff.mp second).1
    omega
  rcases Nat.lt_trichotomy i j with before | same | after
  · exact (apart i j v w late before first works second works').elim
  · exact same
  · exact (apart j i w v late' after second works' first works).elim

theorem guards_lift (armed : Bool) (result : Except E α) :
    flag.Guards armed (.lift result : Timed V E α) := fun _ => trivial

theorem prompt_lift (result : Except E α) : flag.Prompt stopped (.lift result) :=
  ⟨⟨nofun, nofun⟩, guards_lift false result⟩

theorem heeds_emit {event : Nat → V} (quiet : ∀ t, flag.asks (event t) = none) :
    flag.Heeds stopped (.emit event : Timed V E Unit) := by
  have only (t i : Nat) (v : V) (here : ([event t] : List V)[i]? = some v) : v = event t :=
    List.mem_singleton.mp (List.mem_of_getElem? here)
  refine ⟨fun t i v found here asked => ?_, fun t i v here asked => ?_⟩ <;>
  · rw [only t i v here, quiet] at asked
    cases asked

theorem guards_emit {event : Nat → V} {armed : Bool}
    (idle : ∀ t, flag.works (event t) = true → armed = true) :
    flag.Guards armed (.emit event : Timed V E Unit) := fun t => ⟨idle t, trivial⟩

variable {next : α → Timed V E β}

theorem Heeds.bind (first : flag.Heeds stopped m)
    (rest : ∀ value, flag.Heeds stopped (next value)) : flag.Heeds stopped (m >>= next) := by
  refine ⟨fun t i v found here asked => ?_, fun t i v here asked => ?_⟩
  · rcases Timed.bind_cases m next t with ⟨e, -, outcome⟩ | ⟨value, -, outcome⟩
    · rw [outcome] at here
      exact first.honest t i v found here asked
    · rw [outcome, List.getElem?_append] at here
      split at here
      · exact first.honest t i v found here asked
      -- The second part begins when the first has left all of its events.
      · have later := (rest value).honest _ _ v found here asked
        rwa [Nat.add_assoc, Nat.add_sub_of_le (by omega)] at later
  · rcases Timed.bind_cases m next t with ⟨e, failed, outcome⟩ | ⟨value, ended, outcome⟩
    · rw [outcome] at here ⊢
      obtain ⟨last, error, is, stopped⟩ := first.stops t i v here asked
      exact ⟨last, e, rfl, Except.error.inj (failed.symm.trans is) ▸ stopped⟩
    · rw [outcome, List.getElem?_append] at here
      rw [outcome]
      split at here
      · obtain ⟨-, error, is, -⟩ := first.stops t i v here asked
        cases ended.symm.trans is
      · obtain ⟨last, stopped⟩ := (rest value).stops _ _ v here asked
        refine ⟨?_, stopped⟩
        rw [List.length_append, ← last]
        omega

theorem Guards.bind {armed : Bool} (first : flag.Guards armed m)
    (rest : ∀ value, flag.Guards false (next value)) : flag.Guards armed (m >>= next) := by
  intro t
  rcases Timed.bind_cases m next t with ⟨e, -, outcome⟩ | ⟨value, -, outcome⟩
  · rw [outcome]
    exact first t
  · rw [outcome]
    exact guarded_append (first t) (rest value _)

theorem Guards.lift_bind {armed : Bool} (result : Except E α)
    (rest : ∀ value, flag.Guards armed (next value)) :
    flag.Guards armed (Timed.lift result >>= next) := by
  intro t
  cases result with
  | error e => trivial
  | ok value => exact rest value t

theorem Clears.bind (first : flag.Guards false m) (clears : flag.Clears m)
    (rest : ∀ value, flag.Guards true (next value)) : flag.Guards false (m >>= next) := by
  intro t
  rcases Timed.bind_cases m next t with ⟨e, -, outcome⟩ | ⟨value, ended, outcome⟩
  · rw [outcome]
    exact first t
  · rw [outcome]
    exact clears t value ended _ (rest value _)

theorem Prompt.bind (first : flag.Prompt stopped m)
    (rest : ∀ value, flag.Prompt stopped (next value)) : flag.Prompt stopped (m >>= next) :=
  ⟨first.toHeeds.bind fun value => (rest value).toHeeds,
    first.guards.bind fun value => (rest value).guards⟩

theorem Heeds.mapError {stopped' : E' → Prop} {change : E → E'} (heeds : flag.Heeds stopped m)
    (kept : ∀ e, stopped e → stopped' (change e)) : flag.Heeds stopped' (m.mapError change) := by
  refine ⟨heeds.honest, fun t i v here asked => ?_⟩
  obtain ⟨last, e, is, stop⟩ := heeds.stops t i v here asked
  refine ⟨last, change e, ?_, kept e stop⟩
  rw [Timed.mapError, is]
  rfl

theorem Prompt.mapError {stopped' : E' → Prop} {change : E → E'} (prompt : flag.Prompt stopped m)
    (kept : ∀ e, stopped e → stopped' (change e)) : flag.Prompt stopped' (m.mapError change) :=
  ⟨prompt.toHeeds.mapError kept, prompt.guards⟩

theorem Clears.mapError {change : E → E'} (clears : flag.Clears m) :
    flag.Clears (m.mapError change) := by
  intro t value ended
  rcases outcome : (m t).1 with e | result
  · rw [Timed.mapError, outcome] at ended
    cases ended
  · exact clears t result outcome

section

variable {plan rest : List V} {t : Nat}

theorem follows_lift (result : Except E α) : flag.Follows [] (Timed.lift result t) :=
  ⟨fun _ _ => rfl, .inl (List.prefix_refl [])⟩

theorem follows_emit (event : Nat → V) :
    flag.Follows [event t] ((Timed.emit event : Timed V E Unit) t) :=
  ⟨fun _ _ => rfl, .inl (List.prefix_refl _)⟩

theorem Follows.mapError {change : E → E'} (follows : flag.Follows plan (m t)) :
    flag.Follows plan (m.mapError change t) := by
  refine ⟨fun value ended => ?_, follows.2⟩
  rcases outcome : (m t).1 with e | result
  · rw [Timed.mapError, outcome] at ended
    cases ended
  · exact follows.1 result outcome

theorem Follows.prefix_of_down (follows : flag.Follows plan (m t)) (heeds : flag.Heeds stopped m)
    (down : ∀ t, flag.raised t = false) : (m t).2 <+: plan := by
  refine follows.2.resolve_right fun ⟨v, member, asked⟩ => ?_
  obtain ⟨i, here⟩ := List.mem_iff_getElem?.mp member
  exact Bool.false_ne_true ((down _).symm.trans (heeds.honest t i v true here asked).symm)

theorem Follows.bind (first : flag.Follows plan (m t))
    (second : ∀ value, (m t).1 = .ok value →
      flag.Follows rest (next value (t + (m t).2.length))) :
    flag.Follows (plan ++ rest) ((m >>= next) t) := by
  rcases Timed.bind_cases m next t with ⟨e, -, outcome⟩ | ⟨value, ended, outcome⟩
  · rw [outcome]
    exact ⟨nofun, first.2.imp_left fun part => part.trans (List.prefix_append ..)⟩
  · obtain ⟨whole, part⟩ := second value ended
    rw [outcome, first.1 value ended]
    rw [first.1 value ended] at whole part
    refine ⟨fun result is => by rw [whole result is], part.imp (fun part => ?_) ?_⟩
    · exact (List.prefix_append_right_inj plan).mpr part
    · exact fun ⟨v, member, asked⟩ => ⟨v, List.mem_append_right _ member, asked⟩

/-- What the second part plans may depend on what the first came to. -/
theorem Follows.bind_some {ι : Type} [Inhabited ι] (rest : ι → List V)
    (first : flag.Follows plan (m t)) (second : ∀ value, (m t).1 = .ok value →
      ∃ i, flag.Follows (rest i) (next value (t + (m t).2.length))) :
    ∃ i, flag.Follows (plan ++ rest i) ((m >>= next) t) := by
  rcases outcome : (m t).1 with e | value
  · exact ⟨default, first.bind fun value is => nomatch outcome.symm.trans is⟩
  · obtain ⟨i, follows⟩ := second value outcome
    refine ⟨i, first.bind fun value' is => ?_⟩
    obtain rfl := Except.ok.inj (outcome.symm.trans is)
    exact follows

theorem Follows.bind_silent (first : flag.Follows plan (m t))
    (second : ∀ value t, flag.Follows [] (next value t)) : flag.Follows plan ((m >>= next) t) :=
  List.append_nil plan ▸ first.bind fun value _ => second value _

theorem Follows.lift_bind (result : Except E α)
    (second : ∀ value t, flag.Follows plan (next value t)) :
    flag.Follows plan ((Timed.lift result >>= next) t) := by
  cases result with
  | error e => exact ⟨nofun, .inl List.nil_prefix⟩
  | ok value => exact second value t

end

end Flag

end Stemd.Semantics
