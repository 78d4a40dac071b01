import Mathlib.Data.List.Basic
import Stemd.Semantics.Framing

/-! Writers that may take less than they are given, be interrupted, or fail, and a buffer
in front of one.

What a buffered writer has accepted has been passed on or is still in its buffer, in order.
Dropping it passes the rest on, and nobody is told how that went. -/

set_option autoImplicit false

namespace Stemd.Semantics.Buffered

open Framing

inductive IoError where
  | interrupted
  | writeZero
  | other
  deriving DecidableEq, Repr

/-- Something that takes the beginning of what it is given, or nothing and an error. It is
not interrupted for ever. -/
class Write (W : Type) where
  write : W → Bytes → Except IoError Nat × W
  /-- Everything accepted so far. -/
  written : W → Bytes
  patience : W → Nat
  took : ∀ {w w' : W} {buf : Bytes} {count : Nat}, write w buf = (.ok count, w') →
    count ≤ buf.length ∧ written w' = written w ++ buf.take count ∧ patience w' ≤ patience w
  refused : ∀ {w w' : W} {buf : Bytes} {error : IoError}, write w buf = (.error error, w') →
    written w' = written w ∧ patience w' ≤ patience w ∧
      (error = .interrupted → patience w' < patience w)

variable {W : Type} [Write W]

/-- Write until nothing is left, going on after an interruption; what is left over at an
error is returned as well. -/
def writeAll (w : W) (buf : Bytes) : Except IoError Unit × W × Bytes :=
  if _empty : buf = [] then (.ok (), w, [])
  else match done : Write.write w buf with
    | (.ok 0, w') => (.error .writeZero, w', buf)
    | (.ok (count + 1), w') => writeAll w' (buf.drop (count + 1))
    | (.error .interrupted, w') => writeAll w' buf
    | (.error error, w') => (.error error, w', buf)
termination_by Write.patience w + buf.length
decreasing_by
  · have fewer := (Write.took done).2.2
    have positive := List.length_pos_iff.mpr _empty
    simp only [List.length_drop]
    omega
  · have fewer := (Write.refused done).2.2 rfl
    omega

theorem writeAll_nil (w : W) : writeAll w [] = (.ok (), w, []) := by
  rw [writeAll, dif_pos rfl]

/-- Nothing is lost on the way, and it is an error exactly if something is left. -/
structure WrittenAll (w w' : W) (buf rest : Bytes) (result : Except IoError Unit) : Prop where
  whole : Write.written w' ++ rest = Write.written w ++ buf
  done : result = .ok () ↔ rest = []
  patience : Write.patience w' ≤ Write.patience w
  uninterrupted : result ≠ .error .interrupted

theorem writeAll_spec (w : W) (buf : Bytes) :
    WrittenAll w (writeAll w buf).2.1 buf (writeAll w buf).2.2 (writeAll w buf).1 := by
  fun_induction writeAll w buf with
  | case1 w => exact ⟨rfl, by simp, Nat.le_refl _, by simp⟩
  | case2 w buf filled w' done =>
      obtain ⟨-, written, fewer⟩ := Write.took done
      exact ⟨by simp [written], by simp [filled], fewer, by simp⟩
  | case3 w buf filled count w' done ih =>
      obtain ⟨-, written, fewer⟩ := Write.took done
      refine ⟨?_, ih.done, Nat.le_trans ih.patience fewer, ih.uninterrupted⟩
      rw [ih.whole, written, List.append_assoc, List.take_append_drop]
  | case4 w buf filled w' done ih =>
      obtain ⟨written, fewer, -⟩ := Write.refused done
      exact ⟨written ▸ ih.whole, ih.done, Nat.le_trans ih.patience fewer, ih.uninterrupted⟩
  | case5 w buf filled error w' other done =>
      obtain ⟨written, fewer, -⟩ := Write.refused done
      exact ⟨by rw [written], by simp [filled], fewer, by simpa using other⟩

theorem writeAll_keeps {P : W → Prop}
    (keep : ∀ w buf result w', Write.write w buf = (result, w') → P w → P w') {w : W}
    (start : P w) (buf : Bytes) : P (writeAll w buf).2.1 := by
  fun_induction writeAll w buf with
  | case1 w => exact start
  | case2 w buf filled w' done => exact keep w buf _ w' done start
  | case3 w buf filled count w' done ih => exact ih (keep w buf _ w' done start)
  | case4 w buf filled w' done ih => exact ih (keep w buf _ w' done start)
  | case5 w buf filled error w' other done => exact keep w buf _ w' done start

theorem writeAll_willing {w : W} {buf : Bytes} (willing : (Write.write w buf).1 = .ok buf.length)
    (filled : buf ≠ []) : writeAll w buf = (.ok (), (Write.write w buf).2, []) := by
  cases buf with
  | nil => exact absurd rfl filled
  | cons head tail =>
      unfold writeAll
      rw [dif_neg filled]
      split
      · rename_i done
        cases (congrArg Prod.fst done).symm.trans willing
      · rename_i count w' done
        have all : count + 1 = _ := Except.ok.inj ((congrArg Prod.fst done).symm.trans willing)
        rw [all, List.drop_length, writeAll_nil, congrArg Prod.snd done]
      · rename_i done
        cases (congrArg Prod.fst done).symm.trans willing
      · rename_i done
        cases (congrArg Prod.fst done).symm.trans willing

inductive Outcome where
  | takes (count : Nat)
  | interrupted
  | fails
  deriving DecidableEq, Repr

/-- An open file and the outcomes of the calls to come. Once they run out, everything is
taken. -/
structure Handle where
  content : Bytes
  outcomes : List Outcome
  deriving DecidableEq

def Handle.write (file : Handle) (buf : Bytes) : Except IoError Nat × Handle :=
  match file.outcomes with
  | [] => (.ok buf.length, ⟨file.content ++ buf, []⟩)
  | .takes count :: rest => (.ok (min count buf.length), ⟨file.content ++ buf.take count, rest⟩)
  | .interrupted :: rest => (.error .interrupted, ⟨file.content, rest⟩)
  | .fails :: rest => (.error .other, ⟨file.content, rest⟩)

instance : Write Handle where
  write := Handle.write
  written := Handle.content
  patience file := file.outcomes.length
  took {file file' buf count} done := by
    obtain ⟨content, _ | ⟨_ | _ | _, rest⟩⟩ := file <;>
      simp only [Handle.write, Prod.mk.injEq, Except.ok.injEq, reduceCtorEq, false_and] at done
    · obtain ⟨rfl, rfl⟩ := done
      simp
    · obtain ⟨rfl, rfl⟩ := done
      exact ⟨Nat.min_le_right .., by simp [← List.take_eq_take_min]⟩
  refused {file file' buf error} done := by
    obtain ⟨content, _ | ⟨_ | _ | _, rest⟩⟩ := file <;>
      simp only [Handle.write, Prod.mk.injEq, Except.error.injEq, reduceCtorEq, false_and] at done
    all_goals
      obtain ⟨rfl, rfl⟩ := done
      simp

theorem Handle.write_calm {file : Handle} (calm : file.outcomes = []) (buf : Bytes) :
    Write.write file buf = (.ok buf.length, ⟨file.content ++ buf, []⟩) := by
  obtain ⟨content, outcomes⟩ := file
  obtain rfl : outcomes = [] := calm
  rfl

theorem Handle.writeAll_calm {file : Handle} (calm : file.outcomes = []) (buf : Bytes) :
    writeAll file buf = (.ok (), ⟨file.content ++ buf, []⟩, []) := by
  by_cases empty : buf = []
  · obtain ⟨content, outcomes⟩ := file
    obtain rfl : outcomes = [] := calm
    rw [empty, writeAll_nil, List.append_nil]
  · have step := Handle.write_calm calm buf
    rw [writeAll_willing (congrArg Prod.fst step) empty, step]

structure BufWriter (W : Type) where
  inner : W
  buffer : Bytes
  capacity : Nat

namespace BufWriter

def withCapacity (capacity : Nat) (inner : W) : BufWriter W := ⟨inner, [], capacity⟩

def accepted (w : BufWriter W) : Bytes := Write.written w.inner ++ w.buffer

def flushBuf (w : BufWriter W) : Except IoError Unit × BufWriter W :=
  let (result, inner, rest) := writeAll w.inner w.buffer
  (result, { w with inner := inner, buffer := rest })

/-- What does not fit a buffer of its own goes past it. -/
def writeFlushed (w : BufWriter W) (buf : Bytes) : Except IoError Nat × BufWriter W :=
  if w.capacity ≤ buf.length then
    let (result, inner) := Write.write w.inner buf
    (result, { w with inner := inner })
  else (.ok buf.length, { w with buffer := w.buffer ++ buf })

def write (w : BufWriter W) (buf : Bytes) : Except IoError Nat × BufWriter W :=
  let spare := w.capacity - w.buffer.length
  if buf.length < spare then (.ok buf.length, { w with buffer := w.buffer ++ buf })
  else if spare < buf.length then
    match w.flushBuf with
    | (.ok (), w') => w'.writeFlushed buf
    | (.error error, w') => (.error error, w')
  else w.writeFlushed buf

/-- Dropping the writer flushes it and ignores an error. -/
def dropped (w : BufWriter W) : W := w.flushBuf.2.inner

theorem flushBuf_spec (w : BufWriter W) : w.flushBuf.2.accepted = w.accepted ∧
    (w.flushBuf.1 = .ok () ↔ w.flushBuf.2.buffer = []) ∧
    Write.patience w.flushBuf.2.inner ≤ Write.patience w.inner ∧
    w.flushBuf.1 ≠ .error .interrupted := by
  have all := writeAll_spec w.inner w.buffer
  exact ⟨all.whole, all.done, all.patience, all.uninterrupted⟩

theorem writeFlushed_took {w w' : BufWriter W} {buf : Bytes} {count : Nat}
    (empty : w.capacity ≤ buf.length → w.buffer = [] ∨ buf = [])
    (done : w.writeFlushed buf = (.ok count, w')) :
    count ≤ buf.length ∧ w'.accepted = w.accepted ++ buf.take count ∧
      Write.patience w'.inner ≤ Write.patience w.inner := by
  unfold writeFlushed at done
  split at done
  · rename_i large
    cases step : Write.write w.inner buf with
    | mk result inner =>
        simp only [step, Prod.mk.injEq] at done
        obtain ⟨rfl, rfl⟩ := done
        obtain ⟨bound, written, fewer⟩ := Write.took step
        refine ⟨bound, ?_, fewer⟩
        simp only [accepted, written]
        rcases empty large with none | none <;> simp [none]
  · obtain ⟨took, rfl⟩ := Prod.mk.inj done
    obtain rfl := Except.ok.inj took
    exact ⟨Nat.le_refl _, by simp [accepted], Nat.le_refl _⟩

theorem writeFlushed_refused {w w' : BufWriter W} {buf : Bytes} {error : IoError}
    (done : w.writeFlushed buf = (.error error, w')) :
    w'.accepted = w.accepted ∧ Write.patience w'.inner ≤ Write.patience w.inner ∧
      (error = .interrupted → Write.patience w'.inner < Write.patience w.inner) := by
  unfold writeFlushed at done
  split at done
  · cases step : Write.write w.inner buf with
    | mk result inner =>
        simp only [step, Prod.mk.injEq] at done
        obtain ⟨rfl, rfl⟩ := done
        obtain ⟨written, fewer, interrupted⟩ := Write.refused step
        exact ⟨by simp only [accepted, written], fewer, interrupted⟩
  · cases done

theorem write_cases (w : BufWriter W) (buf : Bytes) :
    w.write buf = (.ok buf.length, { w with buffer := w.buffer ++ buf }) ∨
    (∃ error, w.flushBuf.1 = .error error ∧ w.write buf = (.error error, w.flushBuf.2)) ∨
    (w.flushBuf.1 = .ok () ∧ w.write buf = w.flushBuf.2.writeFlushed buf) ∨
    (w.capacity - w.buffer.length = buf.length ∧ w.write buf = w.writeFlushed buf) := by
  unfold write
  rcases Nat.lt_trichotomy buf.length (w.capacity - w.buffer.length) with less | same | more
  · exact .inl (if_pos less)
  · refine .inr (.inr (.inr ⟨same.symm, ?_⟩))
    rw [if_neg (by omega), if_neg (by omega)]
  · rw [if_neg (by omega), if_pos more]
    cases flushed : w.flushBuf with
    | mk result w' =>
        cases result with
        | ok => exact .inr (.inr (.inl ⟨rfl, rfl⟩))
        | error error => exact .inr (.inl ⟨error, rfl, rfl⟩)

instance : Write (BufWriter W) where
  write := write
  written := accepted
  patience w := Write.patience w.inner
  took {w w' buf count} done := by
    obtain ⟨flushed, drained, fewer, -⟩ := w.flushBuf_spec
    rcases w.write_cases buf with pushed | ⟨_, -, failed⟩ | ⟨ok, past⟩ | ⟨fits, past⟩
    · obtain ⟨took, rfl⟩ := Prod.mk.inj (pushed.symm.trans done)
      obtain rfl := Except.ok.inj took
      exact ⟨Nat.le_refl _, by simp [accepted], Nat.le_refl _⟩
    · cases failed.symm.trans done
    · obtain ⟨bound, took, fewer'⟩ :=
        writeFlushed_took (fun _ => .inl (drained.mp ok)) (past.symm.trans done)
      exact ⟨bound, took.trans (by rw [flushed]), Nat.le_trans fewer' fewer⟩
    · refine writeFlushed_took (fun large => ?_) (past.symm.trans done)
      rcases Nat.eq_zero_or_pos w.buffer.length with none | some
      · exact .inl (List.length_eq_zero_iff.mp none)
      · exact .inr (List.length_eq_zero_iff.mp (by omega))
  refused {w w' buf error} done := by
    obtain ⟨flushed, -, fewer, uninterrupted⟩ := w.flushBuf_spec
    rcases w.write_cases buf with pushed | ⟨cause, failed, stopped⟩ | ⟨-, past⟩ | ⟨-, past⟩
    · cases pushed.symm.trans done
    · obtain ⟨same, rfl⟩ := Prod.mk.inj (stopped.symm.trans done)
      obtain rfl := Except.error.inj same
      exact ⟨flushed, fewer, fun interrupted => absurd (interrupted ▸ failed) uninterrupted⟩
    · obtain ⟨same, fewer', interrupted⟩ := writeFlushed_refused (past.symm.trans done)
      exact ⟨same.trans flushed, Nat.le_trans fewer' fewer,
        fun cause => Nat.lt_of_lt_of_le (interrupted cause) fewer⟩
    · exact writeFlushed_refused (past.symm.trans done)

theorem written_dropped (w : BufWriter W) :
    Write.written w.dropped ++ w.flushBuf.2.buffer = Write.written w :=
  w.flushBuf_spec.1

/-- The drop passes on everything exactly if its flush goes through. -/
theorem written_dropped_eq_iff (w : BufWriter W) :
    Write.written w.dropped = Write.written w ↔ w.flushBuf.1 = .ok () := by
  rw [w.flushBuf_spec.2.1, ← w.written_dropped]
  exact List.self_eq_append_right

theorem flushBuf_calm {w : BufWriter Handle} (calm : w.inner.outcomes = []) :
    w.flushBuf = (.ok (), ⟨⟨w.inner.content ++ w.buffer, []⟩, [], w.capacity⟩) := by
  simp only [flushBuf, Handle.writeAll_calm calm]

theorem writeFlushed_calm {w : BufWriter Handle} (calm : w.inner.outcomes = []) (buf : Bytes) :
    (w.writeFlushed buf).1 = .ok buf.length ∧ (w.writeFlushed buf).2.inner.outcomes = [] := by
  unfold writeFlushed
  split
  · simp only [Handle.write_calm calm, and_self]
  · exact ⟨rfl, calm⟩

theorem write_calm {w : BufWriter Handle} (calm : w.inner.outcomes = []) (buf : Bytes) :
    (Write.write w buf).1 = .ok buf.length ∧ (Write.write w buf).2.inner.outcomes = [] := by
  change (w.write buf).1 = _ ∧ (w.write buf).2.inner.outcomes = []
  rcases w.write_cases buf with pushed | ⟨_, failed, -⟩ | ⟨-, past⟩ | ⟨-, past⟩
  · rw [pushed]
    exact ⟨rfl, calm⟩
  · rw [flushBuf_calm calm] at failed
    cases failed
  · rw [past]
    exact writeFlushed_calm (by rw [flushBuf_calm calm]) buf
  · rw [past]
    exact writeFlushed_calm calm buf

end BufWriter

end Stemd.Semantics.Buffered
