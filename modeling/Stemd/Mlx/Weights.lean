import Mathlib.Data.Finset.Card
import Mathlib.Data.List.TakeWhile
import Std.Data.String.ToNat
import Stemd.Mlx.Bands
import Stemd.Semantics.Fallible

/-! The tensors of a converted artefact, addressed by name.

Every layer builds itself from the names under one path, and a layer that was built has the
shapes it was built for: what comes out of a loader is a layer that carries its own fit. What
does not fit is refused under the name of the tensor that disagreed. -/

set_option autoImplicit false

namespace Stemd.Mlx

open Stemd.Semantics

/-- The tensors of one file. No name is there twice. -/
structure Weights (K : Type) where
  tensors : List (String × Tensor K)
  distinct : (tensors.map Prod.fst).Nodup

inductive LoadError where
  /-- `no tensor named {key}` -/
  | missing (key : String)
  /-- `{prefix}.{name} is {:?}, expected {shape:?}` -/
  | shaped (key : String) (is expected : List Nat)
  /-- `the bands cover {total} bins but a {n_fft}-point transform has {bins}` -/
  | bands (uncovered : Roformer.Uncovered)
  deriving DecidableEq, Repr

structure Scope (K : Type) where
  weights : Weights K
  path : String

variable {K : Type}

def Weights.get (w : Weights K) (key : String) : Option (Tensor K) := w.tensors.lookup key

def Weights.scope (w : Weights K) (path : String) : Scope K := ⟨w, path⟩

def Scope.key (s : Scope K) (name : String) : String := s.path ++ "." ++ name

def Scope.child (s : Scope K) (name : String) : Scope K := ⟨s.weights, s.key name⟩

def Scope.get (s : Scope K) (name : String) : Except LoadError (Tensor K) :=
  parsed (s.weights.get (s.key name)) (.missing (s.key name))

def Scope.has (s : Scope K) (name : String) : Bool := (s.weights.get (s.key name)).isSome

def Scope.getShaped (s : Scope K) (name : String) (shape : List Nat) :
    Except LoadError { t : Tensor K // t.shape = shape } := do
  let array ← s.get name
  if same : array.shape = shape then .ok ⟨array, same⟩
  else .error (.shaped (s.key name) array.shape shape)

def Scope.optional (s : Scope K) (name : String) (shape : List Nat) :
    Except LoadError { o : Option (Tensor K) // ∀ t, o = some t → t.shape = shape } :=
  if s.has name then do
    let array ← s.getShaped name shape
    return ⟨some array.1, by
      rintro t ⟨⟩
      exact array.2⟩
  else .ok ⟨none, by
    intro t none
    cases none⟩

def Scope.Has (s : Scope K) (name : String) (shape : List Nat) : Prop :=
  ∃ t, s.weights.get (s.key name) = some t ∧ t.shape = shape

def Scope.May (s : Scope K) (name : String) (shape : List Nat) : Prop :=
  ∀ t, s.weights.get (s.key name) = some t → t.shape = shape

/-- What a refusal says is so of the artefact. -/
def LoadError.Holds (w : Weights K) : LoadError → Prop
  | .missing key => w.get key = none
  | .shaped key is expected => is ≠ expected ∧ ∃ t, w.get key = some t ∧ t.shape = is
  | .bands uncovered => uncovered.total ≠ uncovered.bins

/-- A loader gives something exactly of an artefact that stores what it wants, and refuses any
other for a reason. -/
def Loads {α : Type} (w : Weights K) (stored : Prop) (loaded : Except LoadError α) : Prop :=
  Settles (fun _ => stored) (fun e => ¬ stored ∧ e.Holds w) loaded

theorem Loads.ok {α : Type} {w : Weights K} (value : α) : Loads w True (.ok value) := trivial

theorem Loads.bind {α β : Type} {w : Weights K} {stored rest : Prop}
    {first : Except LoadError α} {next : α → Except LoadError β} (here : Loads w stored first)
    (later : ∀ value, Loads w rest (next value)) : Loads w (stored ∧ rest) (first >>= next) := by
  cases first with
  | error e => exact ⟨fun both => here.1 both.1, here.2⟩
  | ok value =>
      have go : Loads w rest (next value) := later value
      change Loads w (stored ∧ rest) (next value)
      cases ended : next value with
      | ok result =>
          rw [ended] at go
          exact ⟨here, go⟩
      | error e =>
          rw [ended] at go
          exact ⟨fun both => go.1 both.2, go.2⟩

theorem Loads.done {α β : Type} {w : Weights K} {stored : Prop} {first : Except LoadError α}
    (here : Loads w stored first) (f : α → β) : Loads w stored (first >>= fun v => .ok (f v)) := by
  cases first with
  | error e => exact here
  | ok value => exact here

theorem Loads.mapM {α β : Type} {w : Weights K} {stored : α → Prop} {f : α → Except LoadError β}
    (each : ∀ item, Loads w (stored item) (f item)) (items : List α) :
    Loads w (∀ item ∈ items, stored item) (items.mapM f) := by
  induction items with
  | nil =>
      intro item none
      cases none
  | cons item items ih =>
      rw [List.mapM_cons]
      have both := (each item).bind fun first => ih.done fun rest => first :: rest
      rw [← List.forall_mem_cons] at both
      exact both

theorem Scope.getShaped_loads (s : Scope K) (name : String) (shape : List Nat) :
    Loads s.weights (s.Has name shape) (s.getShaped name shape) := by
  unfold Scope.getShaped Scope.get Scope.Has
  cases found : s.weights.get (s.key name) with
  | none =>
      refine ⟨?_, found⟩
      rintro ⟨t, is, -⟩
      cases is
  | some array =>
      change Loads s.weights _ (if same : array.shape = shape then _ else _)
      split
      · next same => exact ⟨array, rfl, same⟩
      · next differs =>
          refine ⟨?_, differs, array, found, rfl⟩
          rintro ⟨t, is, same⟩
          cases is
          exact differs same

theorem Scope.optional_loads (s : Scope K) (name : String) (shape : List Nat) :
    Loads s.weights (s.May name shape) (s.optional name shape) := by
  unfold Scope.optional Scope.has
  cases found : s.weights.get (s.key name) with
  | none =>
      intro t is
      rw [found] at is
      cases is
  | some array =>
      -- What is there has to have the shape.
      have same : s.May name shape ↔ s.Has name shape := by
        constructor
        · exact fun may => ⟨array, found, may array found⟩
        · rintro ⟨t, is, shaped⟩ t' is'
          rw [is] at is'
          cases is'
          exact shaped
      rw [same]
      exact (s.getShaped_loads name shape).done _

def modelPrefix (n : Nat) : List Char := ("model_" ++ toString n ++ ".").toList

def Weights.holdsModel (w : Weights K) (n : Nat) : Bool :=
  w.tensors.any fun tensor => (modelPrefix n).isPrefixOf tensor.1.toList

/-- How many models the artefact holds. -/
def Weights.models (w : Weights K) : Nat :=
  ((List.range (w.tensors.length + 1)).takeWhile w.holdsModel).length

theorem digit_ne_dot {n : Nat} {c : Char} (member : c ∈ (toString n).toList) : c ≠ '.' := by
  have digit : c.isDigit := by
    rw [Nat.toString_eq_repr, Nat.repr_eq_ofList_toDigits, String.toList_ofList] at member
    exact Nat.isDigit_of_mem_toDigits (by decide) (by decide) member
  rintro rfl
  exact absurd digit (by decide)

theorem modelPrefix_unique {m n : Nat} {key : List Char} (first : modelPrefix m <+: key)
    (second : modelPrefix n <+: key) : m = n := by
  obtain ⟨rest, rfl⟩ := first
  obtain ⟨rest', same⟩ := second
  simp only [modelPrefix, String.toList_append, List.append_assoc] at same
  have digits := List.append_cancel_left same
  -- The digits end where the first dot is.
  have left := congrArg (List.takeWhile (· ≠ '.')) digits
  have cut (k : Nat) (tail : List Char) :
      ((toString k).toList ++ (".".toList ++ tail)).takeWhile (· ≠ '.') = (toString k).toList := by
    rw [List.takeWhile_append_of_pos fun c member => decide_eq_true (digit_ne_dot member)]
    have dot : ".".toList ++ tail = '.' :: tail := rfl
    rw [dot, List.takeWhile_cons_of_neg (by simp), List.append_nil]
  rw [cut, cut] at left
  exact Nat.repr_injective (by
    rw [← Nat.toString_eq_repr, ← Nat.toString_eq_repr]
    exact (String.toList_inj.mp left).symm)

theorem Weights.models_holds (w : Weights K) : ∀ n < w.models, w.holdsModel n := by
  intro n below
  have inside := List.mem_of_getElem? (List.getElem?_eq_getElem below)
  have here : ((List.range (w.tensors.length + 1)).takeWhile w.holdsModel)[n] = n := by
    have prefixed := List.takeWhile_prefix (l := List.range (w.tensors.length + 1)) w.holdsModel
    rw [prefixed.getElem below, List.getElem_range]
  have held := List.mem_takeWhile_imp inside
  rwa [here] at held

theorem takeWhile_range (p : Nat → Bool) (count : Nat) :
    (∀ n < count, p n = true) ∨ p ((List.range count).takeWhile p).length = false := by
  induction count with
  | zero => exact .inl fun n below => absurd below (Nat.not_lt_zero n)
  | succ count ih =>
      rw [List.range_succ, List.takeWhile_append]
      rcases ih with all | stops
      · have whole : (List.range count).takeWhile p = List.range count :=
          List.takeWhile_eq_self_iff.mpr fun n inside => all n (List.mem_range.mp inside)
        rw [whole, if_pos rfl]
        cases last : p count with
        | true =>
            refine .inl fun n below => ?_
            rcases Nat.lt_succ_iff_lt_or_eq.mp below with before | rfl
            · exact all n before
            · exact last
        | false => exact .inr (by simp [last])
      · refine .inr ?_
        split
        · next whole =>
            rw [whole, List.length_range] at stops
            simp [stops]
        · exact stops

/-- There are no more models than tensors, so that the count stops at one that is not there. -/
theorem Weights.models_stops (w : Weights K) : w.holdsModel w.models = false := by
  refine (takeWhile_range w.holdsModel _).resolve_left fun all => ?_
  have tensor : ∀ n ∈ Finset.range (w.tensors.length + 1),
      ∃ i ∈ Finset.range w.tensors.length, ∀ t, w.tensors[i]? = some t →
        modelPrefix n <+: t.1.toList := by
    intro n inside
    obtain ⟨t, member, begins⟩ := List.any_eq_true.mp (all n (Finset.mem_range.mp inside))
    obtain ⟨i, below, is⟩ := List.mem_iff_getElem.mp member
    refine ⟨i, Finset.mem_range.mpr below, fun t' here => ?_⟩
    rw [List.getElem?_eq_getElem below, is] at here
    cases here
    exact List.isPrefixOf_iff_prefix.mp begins
  choose! place inside begins using tensor
  -- One more model than there are tensors, so that two of them share one.
  obtain ⟨m, hm, n, hn, apart, same⟩ := Finset.exists_ne_map_eq_of_card_lt_of_maps_to
    (by simp) inside
  have here := List.getElem?_eq_getElem (Finset.mem_range.mp (inside m hm))
  exact apart (modelPrefix_unique (begins m hm _ here) (begins n hn _ (same ▸ here)))

end Stemd.Mlx
