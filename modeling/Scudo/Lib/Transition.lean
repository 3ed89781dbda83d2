import Mathlib.Logic.Basic

/-!
Transition systems and the induction over their runs.
-/

namespace Scudo.Lib

/-- A transition system: its initial states and its steps. -/
structure System (σ : Type*) where
  init : σ → Prop
  step : σ → σ → Prop

namespace System

variable {σ : Type*} (sys : System σ)

/-- The states of all runs from an initial state. -/
inductive Reachable : σ → Prop
  | init {s : σ} (start : sys.init s) : Reachable s
  | step {s s' : σ} (reached : Reachable s) (move : sys.step s s') : Reachable s'

variable {sys}

/-- What holds initially and is kept by every step holds in every reachable state. -/
theorem Reachable.invariant {inv : σ → Prop} (start : ∀ s, sys.init s → inv s)
    (keeps : ∀ s s', inv s → sys.step s s' → inv s') {s : σ} (reached : sys.Reachable s) : inv s := by
  induction reached with
  | init first => exact start _ first
  | step _ move ih => exact keeps _ _ ih move

/-- The same for an invariant whose step lemma may use that the state before is reachable. -/
theorem Reachable.strengthen {inv : σ → Prop} (start : ∀ s, sys.init s → inv s)
    (keeps : ∀ s s', sys.Reachable s → inv s → sys.step s s' → inv s') {s : σ}
    (reached : sys.Reachable s) : inv s := by
  induction reached with
  | init first => exact start _ first
  | step before move ih => exact keeps _ _ before ih move

end System

end Scudo.Lib
