import Mathlib.Data.List.Basic

/-!
# A register and a batch of effects on it

A register takes effects one after the other (`run`). A batch forgets their
order: it keeps whether there was a reset, and the last entry (`summarize`), and
is applied as reset first, entry second (`Summary.value`).

* `summarize_split`: the batch of a list of effects, read off its last entry;
* `value_eq_run_iff`: applying the batch is applying the effects one after the
  other exactly when the list is `Settled`.
-/

namespace Corehost.Lib

variable {α : Type*}

/-- An effect on a register. `skip` is an entry without a value: it takes the
place of the last one in a batch, and does nothing by itself. -/
inductive Effect (α : Type*) where
  | keep
  | reset
  | skip
  | write (v : α)
deriving DecidableEq, Repr

namespace Effect

def apply (base x : α) : Effect α → α
  | keep => x
  | reset => base
  | skip => x
  | write v => v

def run (base : α) (es : List (Effect α)) (x : α) : α := es.foldl (apply base) x

/-- The entry that an effect makes in a batch. -/
def lastEntry : Effect α → Option (Option α)
  | keep => none
  | reset => none
  | skip => some none
  | write v => some (some v)

def isReset : Effect α → Bool
  | reset => true
  | _ => false

end Effect

/-- What a batch knows of its effects. -/
structure Summary (α : Type*) where
  cleared : Bool := false
  last : Option (Option α) := none
deriving DecidableEq, Repr

namespace Summary

def push (s : Summary α) : Effect α → Summary α
  | .keep => s
  | .reset => { s with cleared := true }
  | .skip => { s with last := some none }
  | .write v => { s with last := some (some v) }

/-- Reset first, entry second. -/
def value (s : Summary α) (base x : α) : α :=
  match s.last with
  | some (some v) => v
  | _ => if s.cleared then base else x

end Summary

namespace Effect

variable {base x : α} {e : Effect α} {es before after : List (Effect α)}

def summarize (es : List (Effect α)) : Summary α := es.foldl Summary.push {}

theorem run_append : run base (before ++ after) x = run base after (run base before x) := List.foldl_append

theorem run_cons : run base (e :: es) x = run base es (e.apply base x) := rfl

/-- A value written last is not reset any more, unless the reset restores it. A
last entry without a value hides the value before it only where the batch keeps
the same value. -/
def Settled (base x : α) (es : List (Effect α)) : Prop :=
  ∀ before e after, es = before ++ e :: after → e.lastEntry ≠ none → (∀ e' ∈ after, e'.lastEntry = none) →
    (∀ v, e = .write v → after.any isReset → v = base) ∧
    (e = .skip → after.any isReset = false → run base before x = if before.any isReset then base else x)

theorem push_cleared (s : Summary α) (e : Effect α) : (s.push e).cleared = (s.cleared || e.isReset) := by
  cases e <;> simp [Summary.push, isReset]

theorem push_last (s : Summary α) (e : Effect α) : (s.push e).last = e.lastEntry.or s.last := by
  cases e <;> simp [Summary.push, lastEntry]

theorem foldl_push_cleared : ∀ (es : List (Effect α)) (s : Summary α),
    (es.foldl Summary.push s).cleared = (s.cleared || es.any isReset)
  | [], s => by simp
  | e :: es, s => by
    rw [List.foldl_cons, foldl_push_cleared es, push_cleared, List.any_cons, Bool.or_assoc]

theorem foldl_push_last_of_none : ∀ {es : List (Effect α)} (s : Summary α), (∀ e ∈ es, e.lastEntry = none) →
    (es.foldl Summary.push s).last = s.last
  | [], _, _ => rfl
  | e :: es, s, h => by
    rw [List.foldl_cons, foldl_push_last_of_none _ fun e he => h e (List.mem_cons_of_mem _ he), push_last,
      h e List.mem_cons_self, Option.none_or]

theorem summarize_cleared (es : List (Effect α)) : (summarize es).cleared = es.any isReset := by
  simp [summarize, foldl_push_cleared]

/-- A batch of one effect. -/
theorem value_singleton (e : Effect α) (base x : α) : (summarize [e]).value base x = e.apply base x := by
  cases e <;> rfl

/-- Effects without an entry reset the register or leave it alone. -/
theorem run_of_none (base : α) : ∀ {es : List (Effect α)} (x : α), (∀ e ∈ es, e.lastEntry = none) →
    run base es x = if es.any isReset then base else x
  | [], _, _ => by simp [run]
  | e :: es, x, h => by
    have ih := run_of_none base (e.apply base x) fun e he => h e (List.mem_cons_of_mem _ he)
    have he := h e List.mem_cons_self
    rw [run_cons, ih]
    cases e with
    | keep => simp [apply, isReset]
    | reset => simp [apply, isReset]
    | skip => simp [lastEntry] at he
    | write v => simp [lastEntry] at he

/-- A list of effects has no entry, or a last one. -/
theorem exists_last : ∀ (es : List (Effect α)), (∀ e ∈ es, e.lastEntry = none) ∨
    ∃ before e after, es = before ++ e :: after ∧ e.lastEntry ≠ none ∧ ∀ e' ∈ after, e'.lastEntry = none
  | [] => .inl (by simp)
  | e :: es => by
    rcases exists_last es with h | ⟨before, e', after, rfl, he, ha⟩
    · by_cases he : e.lastEntry = none
      · exact .inl (List.forall_mem_cons.mpr ⟨he, h⟩)
      · exact .inr ⟨[], e, es, rfl, he, h⟩
    · exact .inr ⟨e :: before, e', after, rfl, he, ha⟩

theorem summarize_split (he : e.lastEntry ≠ none) (ha : ∀ e' ∈ after, e'.lastEntry = none) :
    (summarize (before ++ e :: after)).last = e.lastEntry := by
  rw [summarize, List.foldl_append, List.foldl_cons, foldl_push_last_of_none _ ha, push_last]
  obtain ⟨o, ho⟩ := Option.ne_none_iff_exists'.mp he
  rw [ho, Option.some_or]

/-- The batch against the effects one after the other, at the last entry. -/
theorem value_eq_run_split (he : e.lastEntry ≠ none) (ha : ∀ e' ∈ after, e'.lastEntry = none) :
    (summarize (before ++ e :: after)).value base x = run base (before ++ e :: after) x ↔
      (∀ v, e = .write v → after.any isReset → v = base) ∧
      (e = .skip → after.any isReset = false → run base before x = if before.any isReset then base else x) := by
  have hlast : (summarize (before ++ e :: after)).last = e.lastEntry := summarize_split he ha
  have hclear := summarize_cleared (before ++ e :: after)
  rw [run_append, run_cons, run_of_none base _ ha, Summary.value, hlast]
  rw [List.any_append, List.any_cons] at hclear
  cases e with
  | keep => simp [lastEntry] at he
  | reset => simp [lastEntry] at he
  | skip =>
    simp only [lastEntry, apply, hclear, isReset, Bool.false_or, reduceCtorEq, IsEmpty.forall_iff, implies_true,
      true_and, forall_const]
    cases hr : after.any isReset
    · simp only [Bool.or_false, Bool.false_eq_true, if_false, forall_const]
      exact eq_comm
    · simp
  | write v =>
    simp only [lastEntry, apply, write.injEq, forall_eq', reduceCtorEq, IsEmpty.forall_iff, and_true]
    cases hr : after.any isReset <;> simp

/-- Applying a batch is applying its effects one after the other exactly when
the list is settled. -/
theorem value_eq_run_iff : (summarize es).value base x = run base es x ↔ Settled base x es := by
  constructor
  · rintro h before e after rfl he ha
    exact (value_eq_run_split he ha).mp h
  · intro h
    rcases exists_last es with hn | ⟨before, e, after, rfl, he, ha⟩
    · have hlast : (summarize es).last = none := foldl_push_last_of_none _ hn
      rw [run_of_none base _ hn, Summary.value, hlast, summarize_cleared]
    · exact (value_eq_run_split he ha).mpr (h before e after rfl he ha)

end Effect

end Corehost.Lib
