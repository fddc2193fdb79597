import Mathlib.Init

/-!
# What holds in every state of a run

Runs of a machine that takes one event after the other and may stop at one:

* `EveryState`, `EveryStep`: a property of each state that a run reaches, and
  one of each step that it takes;
* `everyState_of_invariant`: a property that an invariant gives;
* `everyState_of_everyStep`, `everyStep_of_everyStep`: an invariant of the steps
  with a condition;
* `everyState_iff_everyStep`: a condition on the steps that decides the
  property of the states, by an invariant;
* `Course`, `everyState_ended_iff`: a machine that may also stay in the middle
  of a step for ever, and the condition for which it does not.
-/

namespace Corehost.Lib

variable {σ ε : Type*} (step : σ → ε → Option σ)

/-- `P` holds in each state that the events lead to from `s` on, and in `s`. -/
def EveryState (P : σ → Prop) : σ → List ε → Prop
  | s, [] => P s
  | s, e :: events => P s ∧ ∀ s', step s e = some s' → EveryState P s' events

/-- `C` holds of each event, in the state that it finds. -/
def EveryStep (C : σ → ε → Prop) : σ → List ε → Prop
  | _, [] => True
  | s, e :: events => C s e ∧ ∀ s', step s e = some s' → EveryStep C s' events

variable {step} {Inv P : σ → Prop} {C : σ → ε → Prop}

theorem EveryState.head {s : σ} : ∀ {events : List ε}, EveryState step P s events → P s
  | [], h => h
  | _ :: _, h => h.1

/-- The state behind the events has the property. -/
theorem EveryState.foldlM {s' : σ} : ∀ {events : List ε} {s : σ}, EveryState step P s events →
    events.foldlM step s = some s' → P s'
  | [], s, h, hrun => Option.some_inj.mp hrun ▸ h
  | e :: events, s, h, hrun => by
    obtain ⟨t, ht, hrest⟩ := Option.bind_eq_some_iff.mp hrun
    exact (h.2 t ht).foldlM hrest

/-- An invariant that every step keeps. -/
theorem everyState_of_invariant (hprop : ∀ s, Inv s → P s) (hkeeps : ∀ s e s', Inv s → step s e = some s' → Inv s') :
    ∀ (events : List ε) {s : σ}, Inv s → EveryState step P s events
  | [], s, hs => hprop s hs
  | _ :: events, s, hs =>
    ⟨hprop s hs, fun s' hs' => everyState_of_invariant hprop hkeeps events (hkeeps s _ s' hs hs')⟩

/-- An invariant that every step with the condition keeps. -/
theorem everyState_of_everyStep (hprop : ∀ s, Inv s → P s) (hkeeps : ∀ s e s', Inv s → C s e → step s e = some s' → Inv s') :
    ∀ (events : List ε) {s : σ}, Inv s → EveryStep step C s events → EveryState step P s events
  | [], s, hs, _ => hprop s hs
  | _ :: events, s, hs, h =>
    ⟨hprop s hs, fun s' hs' =>
      everyState_of_everyStep hprop hkeeps events (hkeeps s _ s' hs h.1 hs') (h.2 s' hs')⟩

/-- What such an invariant gives of every step. -/
theorem everyStep_of_everyStep {D : σ → ε → Prop} (hstep : ∀ s e, Inv s → C s e → D s e)
    (hkeeps : ∀ s e s', Inv s → C s e → step s e = some s' → Inv s') :
    ∀ (events : List ε) {s : σ}, Inv s → EveryStep step C s events → EveryStep step D s events
  | [], _, _, _ => trivial
  | _ :: events, s, hs, h =>
    ⟨hstep s _ hs h.1, fun s' hs' =>
      everyStep_of_everyStep hstep hkeeps events (hkeeps s _ s' hs h.1 hs') (h.2 s' hs')⟩

/-- The invariant gives the property. A step with the condition keeps the
invariant, and a step that keeps the property has the condition. -/
theorem everyState_iff_everyStep (hprop : ∀ s, Inv s → P s)
    (hkeeps : ∀ s e s', Inv s → C s e → step s e = some s' → Inv s')
    (hneeds : ∀ s e, Inv s → (∀ s', step s e = some s' → P s') → C s e) :
    ∀ (events : List ε) {s : σ}, Inv s → (EveryState step P s events ↔ EveryStep step C s events)
  | [], s, hs => ⟨fun _ => trivial, fun _ => hprop s hs⟩
  | e :: events, s, hs => by
    constructor
    · intro h
      have hc : C s e := hneeds s e hs fun s' hs' => (h.2 s' hs').head
      refine ⟨hc, fun s' hs' => ?_⟩
      exact (everyState_iff_everyStep hprop hkeeps hneeds events (hkeeps s e s' hs hc hs')).mp (h.2 s' hs')
    · intro h
      refine ⟨hprop s hs, fun s' hs' => ?_⟩
      exact (everyState_iff_everyStep hprop hkeeps hneeds events (hkeeps s e s' hs h.1 hs')).mpr (h.2 s' hs')

/-! ## Steps without an end -/

/-- Where a machine is: behind a step, or in one that never ends. -/
inductive Course (σ : Type*) where
  | ended (s : σ)
  | endless (s : σ)

namespace Course

def state : Course σ → σ
  | .ended s => s
  | .endless s => s

/-- A step ends as `step` has it, unless it stays in the state that `stays` gives. -/
def next (step stays : σ → ε → Option σ) : Course σ → ε → Option (Course σ)
  | .ended s, e =>
    match stays s e with
    | some s' => some (.endless s')
    | none => (step s e).map .ended
  | .endless _, _ => none

/-- The machine is behind a step, with `P`. -/
def Ended (P : σ → Prop) : Course σ → Prop
  | .ended s => P s
  | .endless _ => False

end Course

variable {stays : σ → ε → Option σ}

theorem Course.next_ended {s : σ} {e : ε} (h : stays s e = none) :
    Course.next step stays (.ended s) e = (step s e).map .ended := by
  rw [Course.next, h]

/-- As `everyState_iff_everyStep`, where a step without the condition may also have no end. -/
theorem everyState_ended_iff (hprop : ∀ s, Inv s → P s)
    (hkeeps : ∀ s e s', Inv s → C s e → step s e = some s' → Inv s') (hends : ∀ s e, Inv s → C s e → stays s e = none)
    (hneeds : ∀ s e, Inv s → stays s e = none → (∀ s', step s e = some s' → P s') → C s e) :
    ∀ (events : List ε) {s : σ}, Inv s →
      (EveryState (Course.next step stays) (Course.Ended P) (.ended s) events ↔ EveryStep step C s events)
  | [], s, hs => ⟨fun _ => trivial, fun _ => hprop s hs⟩
  | e :: events, s, hs => by
    constructor
    · intro h
      have hstays : stays s e = none := Option.eq_none_iff_forall_ne_some.mpr fun s' hs' =>
        (h.2 (.endless s') (by rw [Course.next, hs'])).head
      have hnext (s' : σ) (hs' : step s e = some s') :
          EveryState (Course.next step stays) (Course.Ended P) (.ended s') events :=
        h.2 (.ended s') (by rw [Course.next_ended hstays, hs', Option.map_some])
      have hc : C s e := hneeds s e hs hstays fun s' hs' => (hnext s' hs').head
      refine ⟨hc, fun s' hs' => ?_⟩
      exact (everyState_ended_iff hprop hkeeps hends hneeds events (hkeeps s e s' hs hc hs')).mp (hnext s' hs')
    · intro h
      refine ⟨hprop s hs, fun p hp => ?_⟩
      rw [Course.next_ended (hends s e hs h.1)] at hp
      obtain ⟨s', hs', rfl⟩ := Option.map_eq_some_iff.mp hp
      exact (everyState_ended_iff hprop hkeeps hends hneeds events (hkeeps s e s' hs h.1 hs')).mpr (h.2 s' hs')

end Corehost.Lib
