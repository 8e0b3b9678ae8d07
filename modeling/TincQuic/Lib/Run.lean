import Mathlib.Init

/-!
# Runs of a system

A system has states `σ` and a function `step` that says what an event does.  `Run.Along` says of a
sequence of events that each of them has a property in the state in which it happens, and
`Run.Along.invariant` is the rule that proves an invariant of all runs from what one step does.
-/

namespace Run

universe u v

variable {σ : Type u} {ε : Type v} {step : σ → ε → σ} {P Q : σ → ε → Prop}

/-- Every event has the property in the state in which it happens. -/
def Along (step : σ → ε → σ) (P : σ → ε → Prop) : σ → List ε → Prop
  | _, [] => True
  | s, e :: events => P s e ∧ Along step P (step s e) events

instance decidableAlong [∀ s e, Decidable (P s e)] :
    ∀ (s : σ) (events : List ε), Decidable (Along step P s events)
  | _, [] => isTrue trivial
  | _, _ :: events => @instDecidableAnd _ _ _ (decidableAlong _ events)

namespace Along

/-- What every step keeps, a run keeps. -/
theorem invariant {I : σ → Prop} (hstep : ∀ s e, I s → P s e → I (step s e)) {s : σ}
    {events : List ε} (hs : I s) (h : Along step P s events) : I (events.foldl step s) := by
  induction events generalizing s with
  | nil => exact hs
  | cons e events ih => exact ih (hstep s e hs h.1) h.2

lemma and {s : σ} {events : List ε} (hP : Along step P s events) (hQ : Along step Q s events) :
    Along step (fun s e => P s e ∧ Q s e) s events := by
  induction events generalizing s with
  | nil => trivial
  | cons e events ih => exact ⟨⟨hP.1, hQ.1⟩, ih hP.2 hQ.2⟩

end Along

end Run
