import Mathlib.Data.List.Basic

/-!
# Transducers

A transducer reads one symbol at a time and emits a list of outputs. This file
is about its runs over lists and over lists of chunks:

* `run_append`: a run over a concatenation is two runs, one after the other;
* `run_inv`: an invariant of one step is an invariant of every run;
* `runChunks_of_agrees`: a function that reads whole chunks, and agrees with
  the transducer on each of them, yields the same for every way of cutting
  its input;
* `foldl_output`: a loop that only adds to its output, from any output so far.
-/

namespace Corehost.Lib

/-- Reads a symbol in a state: the outputs and the next state. -/
abbrev Transducer (σ α β : Type*) := σ → α → List β × σ

namespace Transducer

variable {σ α β γ : Type*}

/-- The run of a transducer over a list. -/
def run (t : Transducer σ α β) (s : σ) : List α → List β × σ
  | [] => ([], s)
  | a :: as => ((t s a).1 ++ (run t (t s a).2 as).1, (run t (t s a).2 as).2)

/-- A function that reads whole chunks, applied to one chunk after the other. -/
def runChunks (f : σ → List α → List β × σ) (s : σ) : List (List α) → List β × σ
  | [] => ([], s)
  | c :: cs => ((f s c).1 ++ (runChunks f (f s c).2 cs).1, (runChunks f (f s c).2 cs).2)

variable {t : Transducer σ α β}

@[simp] theorem run_nil (s : σ) : run t s [] = ([], s) := rfl

theorem run_cons (s : σ) (a : α) (as : List α) :
    run t s (a :: as) = ((t s a).1 ++ (run t (t s a).2 as).1, (run t (t s a).2 as).2) := rfl

theorem run_append (s : σ) (as bs : List α) :
    run t s (as ++ bs) = ((run t s as).1 ++ (run t (run t s as).2 bs).1, (run t (run t s as).2 bs).2) := by
  induction as generalizing s with
  | nil => rfl
  | cons a as ih => simp only [List.cons_append, run_cons, ih, List.append_assoc]

/-- What every step preserves, every run preserves. -/
theorem run_inv {P : σ → Prop} (h : ∀ s a, P s → P (t s a).2) : ∀ {s : σ} (as : List α), P s → P (run t s as).2
  | _, [], hs => hs
  | _, a :: as, hs => run_inv h as (h _ a hs)

/-- What every output of a step satisfies, every output of a run does. -/
theorem run_outputs {P : σ → Prop} {A : α → Prop} {Q : β → Prop} (hP : ∀ s a, P s → A a → P (t s a).2)
    (hQ : ∀ s a, P s → A a → ∀ b ∈ (t s a).1, Q b) :
    ∀ {s : σ} (as : List α), P s → (∀ a ∈ as, A a) → ∀ b ∈ (run t s as).1, Q b
  | _, [], _, _, b, hb => by simp at hb
  | s, a :: as, hs, ha, b, hb => by
    obtain ⟨h, has⟩ := List.forall_mem_cons.mp ha
    rw [run_cons, List.mem_append] at hb
    rcases hb with hb | hb
    · exact hQ s a hs h b hb
    · exact run_outputs hP hQ as (hP s a hs h) has b hb

/-- A quantity that every step moves from the input to the outputs and the
state is moved so by every run. -/
theorem run_conserves {P : σ → Prop} (out : β → List γ) (inp : α → List γ) (held : σ → List γ)
    (hP : ∀ s a, P s → P (t s a).2) (h : ∀ s a, P s → (t s a).1.flatMap out ++ held (t s a).2 = held s ++ inp a) :
    ∀ {s : σ} (as : List α), P s → (run t s as).1.flatMap out ++ held (run t s as).2 = held s ++ as.flatMap inp
  | s, [], _ => by simp
  | s, a :: as, hs => by
    have ih := run_conserves out inp held hP h as (hP s a hs)
    rw [run_cons, List.flatMap_append, List.append_assoc, ih, ← List.append_assoc, h s a hs, List.flatMap_cons,
      List.append_assoc]

/-- A chunk reader that agrees with the transducer, up to the rendering `obs` of
its outputs, on every state that satisfies `P`. -/
structure Agrees (f : σ → List α → List γ × σ) (obs : γ → List β) (t : Transducer σ α β) (P : σ → Prop) : Prop where
  state : ∀ s as, P s → (f s as).2 = (run t s as).2
  output : ∀ s as, P s → (f s as).1.flatMap obs = (run t s as).1
  inv : ∀ s a, P s → P (t s a).2

theorem runChunks_of_agrees {f : σ → List α → List γ × σ} {obs : γ → List β} {P : σ → Prop} (h : Agrees f obs t P) :
    ∀ {s : σ} (cs : List (List α)), P s →
      (runChunks f s cs).1.flatMap obs = (run t s cs.flatten).1 ∧ (runChunks f s cs).2 = (run t s cs.flatten).2
  | s, [], _ => by simp [runChunks]
  | s, c :: cs, hs => by
    obtain ⟨h1, h2⟩ := runChunks_of_agrees h cs (run_inv h.inv c hs)
    rw [runChunks, List.flatten_cons, run_append, h.state s c hs, List.flatMap_append, h.output s c hs, h1, h2]
    exact ⟨rfl, rfl⟩

/-- A loop that only adds to its output. -/
theorem foldl_output {f : List β × σ → α → List β × σ}
    (h : ∀ out s a, f (out, s) a = (out ++ (f ([], s) a).1, (f ([], s) a).2)) : ∀ (as : List α) (out : List β) (s : σ),
      as.foldl f (out, s) = (out ++ (as.foldl f ([], s)).1, (as.foldl f ([], s)).2)
  | [], out, s => by simp
  | a :: as, out, s => by
    rw [List.foldl_cons, h, foldl_output h as, List.foldl_cons, foldl_output h as (f ([], s) a).1, List.append_assoc]

end Transducer

end Corehost.Lib
