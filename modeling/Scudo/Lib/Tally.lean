import Mathlib.Algebra.BigOperators.Group.Finset.Basic
import Mathlib.Algebra.Order.BigOperators.Group.Finset
import Mathlib.Data.Multiset.Count
import Mathlib.Tactic.Abel

/-!
Totals over a family of threads of which one changes, and the one place of what is there once.
-/

namespace Scudo.Lib

section Family

variable {τ M : Type*} [Fintype τ] [DecidableEq τ] [AddCancelCommMonoid M]

theorem sum_update_at {σ : τ → Type*} (f : (u : τ) → σ u → M) {loc : (u : τ) → σ u} {t : τ}
    {x : σ t} : (∑ u, f u (Function.update loc t x u)) + f t (loc t) = (∑ u, f u (loc u)) + f t x := by
  have others : ∑ u ∈ Finset.univ.erase t, f u (Function.update loc t x u) =
      ∑ u ∈ Finset.univ.erase t, f u (loc u) := by
    apply Finset.sum_congr rfl
    intro u member
    rw [Function.update_of_ne (Finset.ne_of_mem_erase member)]
  have after := Finset.sum_erase_add Finset.univ (fun u => f u (Function.update loc t x u))
    (Finset.mem_univ t)
  have before := Finset.sum_erase_add Finset.univ (fun u => f u (loc u)) (Finset.mem_univ t)
  rw [Function.update_self, others] at after
  calc (∑ u, f u (Function.update loc t x u)) + f t (loc t)
      = (∑ u ∈ Finset.univ.erase t, f u (loc u)) + f t x + f t (loc t) := by rw [after]
    _ = (∑ u ∈ Finset.univ.erase t, f u (loc u)) + f t (loc t) + f t x := add_right_comm _ _ _
    _ = (∑ u, f u (loc u)) + f t x := by rw [before]

variable {σ : Type*} (f : σ → M) {loc : τ → σ} {t : τ} {x : σ}

theorem sum_update_add :
    (∑ u, f (Function.update loc t x u)) + f (loc t) = (∑ u, f (loc u)) + f x :=
  sum_update_at fun _ => f

/-- What one thread and the shared part exchange is what they exchange in total. -/
theorem sum_update_exchange {shared shared' lost gained : M}
    (exchange : f x + shared' + lost = f (loc t) + shared + gained) :
    (∑ u, f (Function.update loc t x u)) + shared' + lost =
      (∑ u, f (loc u)) + shared + gained := by
  have moved : (∑ u, f (Function.update loc t x u)) + f (loc t) = (∑ u, f (loc u)) + f x :=
    sum_update_add f
  apply add_right_cancel (b := f (loc t))
  calc (∑ u, f (Function.update loc t x u)) + shared' + lost + f (loc t)
      = (∑ u, f (Function.update loc t x u)) + f (loc t) + (shared' + lost) := by abel
    _ = (∑ u, f (loc u)) + (f x + shared' + lost) := by rw [moved]; abel
    _ = (∑ u, f (loc u)) + shared + gained + f (loc t) := by rw [exchange]; abel

/-- The same where nothing comes or goes. -/
theorem sum_update_keep {shared shared' : M} (keep : f x + shared' = f (loc t) + shared) :
    (∑ u, f (Function.update loc t x u)) + shared' = (∑ u, f (loc u)) + shared := by
  have exchange : f x + shared' + 0 = f (loc t) + shared + 0 := by rw [keep]
  have total := sum_update_exchange f exchange
  rw [add_zero, add_zero] at total
  exact total

end Family

section Places

variable {π α : Type*} [Fintype π] [DecidableEq α]

/-- What is there once in total is in one place. -/
theorem existsUnique_of_count {f : π → Multiset α} {x : α} (once : (∑ p, f p).count x = 1) :
    ∃! p, x ∈ f p := by
  rw [Multiset.count_sum'] at once
  have some_ : ∃ p, x ∈ f p := by
    by_contra none_
    push Not at none_
    rw [Finset.sum_eq_zero fun p _ => Multiset.count_eq_zero_of_notMem (none_ p)] at once
    exact absurd once (by decide)
  obtain ⟨p, there⟩ := some_
  refine ⟨p, there, ?_⟩
  intro q also
  by_contra different
  have classical := Classical.decEq π
  have pair : ∑ r ∈ {p, q}, (f r).count x ≤ ∑ r, (f r).count x :=
    Finset.sum_le_sum_of_subset (Finset.subset_univ _)
  rw [Finset.sum_pair (Ne.symm different), once] at pair
  have first := Multiset.count_pos.mpr there
  have second := Multiset.count_pos.mpr also
  omega

/-- What is nowhere twice in total is in one place at most. -/
theorem eq_of_nodup {f : π → Multiset α} (nodup : (∑ p, f p).Nodup) {p q : π} {x : α} (there : x ∈ f p)
    (also : x ∈ f q) : p = q := by
  have le : f p ≤ ∑ r, f r := Finset.single_le_sum_of_canonicallyOrdered (Finset.mem_univ p)
  have once : (∑ r, f r).count x = 1 :=
    Multiset.count_eq_one_of_mem nodup (Multiset.mem_of_le le there)
  exact (existsUnique_of_count once).unique there also

end Places

end Scudo.Lib
