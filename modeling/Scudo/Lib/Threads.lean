import Mathlib.Logic.Function.Basic
import Mathlib.Tactic.Common

/-!
Facts about a family of threads of which one changes its local state: which threads are in a given
kind of local state afterwards, and when there is at most one.
-/

namespace Scudo.Lib

variable {τ σ : Type*} [DecidableEq τ] {loc : τ → σ} (P : σ → Prop) {t : τ} {x : σ}

/-- At most one thread is in such a state. -/
def Sole (loc : τ → σ) : Prop := ∀ t u, P (loc t) → P (loc u) → t = u

/-- After the change of `t`, a thread in such a state is `t` or was in it before. -/
theorem of_update {u : τ} (now : P (Function.update loc t x u)) : u = t ∧ P x ∨ u ≠ t ∧ P (loc u) := by
  by_cases same : u = t
  · subst same
    rw [Function.update_self] at now
    exact Or.inl ⟨rfl, now⟩
  · rw [Function.update_of_ne same] at now
    exact Or.inr ⟨same, now⟩

theorem update_of_other {u : τ} (different : u ≠ t) (before : P (loc u)) :
    P (Function.update loc t x u) := by
  rw [Function.update_of_ne different]
  exact before

theorem update_new (new : P x) : P (Function.update loc t x t) := by
  rw [Function.update_self]
  exact new

variable {P}

/-- A thread that leaves, or stays outside, adds nobody. -/
theorem Sole.leave (sole : Sole P loc) (outside : ¬P x) : Sole P (Function.update loc t x) := by
  intro u v first second
  rcases of_update P first with ⟨_, new⟩ | ⟨_, first⟩
  · exact absurd new outside
  · rcases of_update P second with ⟨_, new⟩ | ⟨_, second⟩
    · exact absurd new outside
    · exact sole u v first second

/-- Where no other thread is inside, the thread may go anywhere. -/
theorem Sole.only (others : ∀ u, P (loc u) → u = t) : Sole P (Function.update loc t x) := by
  have only : ∀ u, P (Function.update loc t x u) → u = t := by
    intro u now
    rcases of_update P now with ⟨same, _⟩ | ⟨_, before⟩
    · exact same
    · exact others u before
  intro u v first second
  rw [only u first, only v second]

/-- A thread may stay. -/
theorem Sole.stay (sole : Sole P loc) (inside : P (loc t)) : Sole P (Function.update loc t x) :=
  Sole.only fun u before => sole u t before inside

/-- A thread may enter where there is none. -/
theorem Sole.enter (none : ∀ u, ¬P (loc u)) : Sole P (Function.update loc t x) :=
  Sole.only fun u before => absurd before (none u)

variable (P)

/-- A change within such states, or outside of them, does not matter. -/
theorem exists_update_iff (same : P x ↔ P (loc t)) :
    (∃ u, P (Function.update loc t x u)) ↔ ∃ u, P (loc u) := by
  constructor
  · rintro ⟨u, now⟩
    rcases of_update P now with ⟨_, new⟩ | ⟨_, before⟩
    · exact ⟨t, same.mp new⟩
    · exact ⟨u, before⟩
  · rintro ⟨u, before⟩
    by_cases self : u = t
    · subst self
      exact ⟨u, update_new P (same.mpr before)⟩
    · exact ⟨u, update_of_other P self before⟩

variable {P}

/-- Where the only thread in such a state leaves it, there is none. -/
theorem Sole.left_none (sole : Sole P loc) (inside : P (loc t)) (leaves : ¬P x) :
    ¬∃ u, P (Function.update loc t x u) := by
  rintro ⟨u, now⟩
  rcases of_update P now with ⟨_, new⟩ | ⟨different, before⟩
  · exact leaves new
  · exact different (sole u t before inside)

variable (P)

/-- Some thread is still in such a state if the one that changed was not. -/
theorem exists_update (found : ∃ u, P (loc u)) (outside : ¬P (loc t)) :
    ∃ u, P (Function.update loc t x u) := by
  obtain ⟨u, before⟩ := found
  refine ⟨u, update_of_other P ?_ before⟩
  rintro rfl
  exact outside before

end Scudo.Lib
