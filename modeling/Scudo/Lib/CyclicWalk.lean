import Mathlib.Data.Int.ModEq
import Mathlib.Data.Nat.GCD.Basic

/-!
Walking around a circle of `n` places with steps of one length. If the length has no common divisor
with `n`, the first `n` places are different ones.
-/

namespace Scudo.Lib.CyclicWalk

/-- The place after `k` steps. -/
def place (n step start k : Nat) : Nat := (start + k * step) % n

variable {n step start j k : Nat}

theorem place_lt (positive : 0 < n) : place n step start k < n := Nat.mod_lt _ positive

theorem place_zero (inside : start < n) : place n step start 0 = start := by
  unfold place
  rw [Nat.zero_mul, Nat.add_zero, Nat.mod_eq_of_lt inside]

theorem place_succ : place n step start (k + 1) = (place n step start k + step) % n := by
  unfold place
  rw [Nat.mod_add_mod, Nat.succ_mul, Nat.add_assoc]

/-- A step that subtracts the length of the circle once at most. -/
theorem place_succ_once (positive : 0 < n) (short : step ≤ n) : place n step start (k + 1) =
    if n ≤ place n step start k + step then place n step start k + step - n
    else place n step start k + step := by
  have inside : place n step start k < n := place_lt positive
  rw [place_succ]
  split_ifs with past
  · rw [Nat.mod_eq_sub_mod past, Nat.mod_eq_of_lt (by omega)]
  · exact Nat.mod_eq_of_lt (by omega)

theorem place_inj (coprime : Nat.Coprime step n) (ltJ : j < n) (ltK : k < n)
    (same : place n step start j = place n step start k) : j = k := by
  have products : j * step ≡ k * step [MOD n] := Nat.ModEq.add_left_cancel' start same
  have steps : j ≡ k [MOD n] := Nat.ModEq.cancel_right_of_coprime coprime.symm products
  exact steps.eq_of_lt_of_lt ltJ ltK

end Scudo.Lib.CyclicWalk
