/-! Computations that may be refused.

A chain that ended well went well at every step, and one that was refused was refused at the
first step that would not go on. -/

set_option autoImplicit false

namespace Stemd.Semantics

variable {ε α β σ : Type}

theorem ok_bind (value : α) (next : α → Except ε β) : (Except.ok value >>= next) = next value := rfl

theorem bind_ok {first : Except ε α} {next : α → Except ε β} {result : β}
    (ended : first >>= next = .ok result) :
    ∃ value, first = .ok value ∧ next value = .ok result := by
  cases first with
  | error e => cases ended
  | ok value => exact ⟨value, rfl, ended⟩

theorem bind_error {first : Except ε α} {next : α → Except ε β} {error : ε}
    (ended : first >>= next = .error error) :
    first = .error error ∨ ∃ value, first = .ok value ∧ next value = .error error := by
  cases first with
  | error e =>
      cases ended
      exact .inl rfl
  | ok value => exact .inr ⟨value, rfl, ended⟩

theorem bind_past {first : Except ε α} {next : α → Except ε β} {error : ε}
    (passes : first ≠ .error error) (ended : first >>= next = .error error) :
    ∃ value, first = .ok value ∧ next value = .error error :=
  (bind_error ended).resolve_left passes

def parsed (found : Option α) (refusal : ε) : Except ε α := found.elim (.error refusal) .ok

theorem parsed_ok {found : Option α} {refusal : ε} {value : α}
    (ended : parsed found refusal = .ok value) : found = some value := by
  cases found with
  | none => cases ended
  | some other =>
      cases ended
      rfl

theorem parsed_error {found : Option α} {refusal error : ε}
    (ended : parsed found refusal = .error error) : error = refusal := by
  cases found with
  | none =>
      cases ended
      rfl
  | some other => cases ended

def ensure (condition : Prop) [Decidable condition] (refusal : ε) : Except ε Unit :=
  if condition then .ok () else .error refusal

theorem ensure_pos {condition : Prop} [Decidable condition] {refusal : ε} (holds : condition) :
    ensure condition refusal = .ok () := if_pos holds

theorem ensure_neg {condition : Prop} [Decidable condition] {refusal : ε} (fails : ¬ condition) :
    ensure condition refusal = .error refusal := if_neg fails

theorem ensure_ok {condition : Prop} [Decidable condition] {refusal : ε} {done : Unit}
    (ended : ensure condition refusal = .ok done) : condition := by
  rw [ensure] at ended
  split at ended
  · assumption
  · cases ended

theorem ensure_error {condition : Prop} [Decidable condition] {refusal error : ε}
    (ended : ensure condition refusal = .error error) : ¬ condition ∧ error = refusal := by
  rw [ensure] at ended
  split at ended
  · cases ended
  · cases ended
    exact ⟨by assumption, rfl⟩

def attested : (computed : Except ε α) → Except ε { value : α // computed = .ok value }
  | .ok value => .ok ⟨value, rfl⟩
  | .error error => .error error

theorem attested_error {computed : Except ε α} {error : ε}
    (ended : attested computed = .error error) : computed = .error error := by
  cases computed with
  | ok value => cases ended
  | error e =>
      cases ended
      rfl

/-- What holds of the value a computation ends with, and what of its refusal. -/
def Settles (accepted : α → Prop) (refused : ε → Prop) : Except ε α → Prop
  | .ok value => accepted value
  | .error error => refused error

theorem Settles.bind {first : Except ε α} {next : α → Except ε β} {middle : α → Prop}
    {accepted : β → Prop} {refused : ε → Prop} (here : Settles middle refused first)
    (rest : ∀ value, middle value → Settles accepted refused (next value)) :
    Settles accepted refused (first >>= next) := by
  cases first with
  | error e => exact here
  | ok value => exact rest value here

theorem Settles.imp {result : Except ε α} {accepted accepted' : α → Prop}
    {refused refused' : ε → Prop} (settles : Settles accepted refused result)
    (value : ∀ v, accepted v → accepted' v) (error : ∀ e, refused e → refused' e) :
    Settles accepted' refused' result := by
  cases result with
  | ok v => exact value v settles
  | error e => exact error e settles

theorem Settles.mapError {ε' : Type} {result : Except ε α} {accepted : α → Prop}
    {refused : ε → Prop} {refused' : ε' → Prop} {f : ε → ε'}
    (settles : Settles accepted refused result) (maps : ∀ e, refused e → refused' (f e)) :
    Settles accepted refused' (result.mapError f) := by
  cases result with
  | ok value => exact settles
  | error e => exact maps e settles

theorem foldlM_zipIdx (step : σ → α × Nat → Except ε σ) (items : List α) (kept : Nat → σ → Prop)
    {s : σ} (first : kept 0 s)
    (turn : ∀ i item s, items[i]? = some item → kept i s →
      ∃ s', step s (item, i) = .ok s' ∧ kept (i + 1) s') :
    ∀ j ≤ items.length, ∃ s', (items.zipIdx.take j).foldlM step s = .ok s' ∧ kept j s' := by
  intro j
  induction j with
  | zero => exact fun _ => ⟨s, rfl, first⟩
  | succ j ih =>
      intro bound
      obtain ⟨s', before, keeps⟩ := ih (by omega)
      have here : items[j]? = some items[j] := List.getElem?_eq_getElem bound
      obtain ⟨s'', stepped, keeps'⟩ := turn j _ s' here keeps
      refine ⟨s'', ?_, keeps'⟩
      rw [List.take_add_one, List.getElem?_zipIdx, here, List.foldlM_append, before]
      simp only [Option.map_some, Option.toList_some, Nat.zero_add, List.foldlM_cons,
        List.foldlM_nil]
      change (step s' (items[j], j) >>= pure) = _
      rw [stepped]
      rfl

end Stemd.Semantics
