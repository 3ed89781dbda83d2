import Mathlib.Data.Nat.Log
import Mathlib.Order.Monotone.Basic
import Mathlib.Tactic.Ring

/-!
The numbers that have `bits + 1` significant bits, in ascending order from `2 ^ bits` on: the one at a
position, and the position of the last one that is not above a number.
-/

namespace Scudo.Lib.SignificantBits

/-- The number at a position: the low bits of the position are its fraction, the others its exponent. -/
def value (bits k : Nat) : Nat := (2 ^ bits + k % 2 ^ bits) * 2 ^ (k / 2 ^ bits)

def position (bits x : Nat) : Nat :=
  (Nat.log2 x - bits) * 2 ^ bits + (x / 2 ^ (Nat.log2 x - bits) - 2 ^ bits)

variable {bits k x : Nat}

/-- Consecutive numbers differ by the unit of their exponent. -/
theorem value_succ : value bits (k + 1) = value bits k + 2 ^ (k / 2 ^ bits) := by
  have positive := Nat.two_pow_pos bits
  have below := Nat.mod_lt k positive
  have parts := Nat.div_add_mod k (2 ^ bits)
  unfold value
  by_cases last : k % 2 ^ bits + 1 = 2 ^ bits
  · have next : k + 1 = 2 ^ bits * (k / 2 ^ bits + 1) := by
      rw [Nat.mul_add, Nat.mul_one]
      omega
    rw [next, Nat.mul_mod_right, Nat.mul_div_cancel_left _ positive]
    calc (2 ^ bits + 0) * 2 ^ (k / 2 ^ bits + 1)
        = (2 ^ bits + 2 ^ bits) * 2 ^ (k / 2 ^ bits) := by ring
      _ = (2 ^ bits + k % 2 ^ bits + 1) * 2 ^ (k / 2 ^ bits) := by rw [Nat.add_assoc, last]
      _ = (2 ^ bits + k % 2 ^ bits) * 2 ^ (k / 2 ^ bits) + 2 ^ (k / 2 ^ bits) := by ring
  · have next : k + 1 = 2 ^ bits * (k / 2 ^ bits) + (k % 2 ^ bits + 1) := by omega
    have small : k % 2 ^ bits + 1 < 2 ^ bits := by omega
    have quotient : (k + 1) / 2 ^ bits = k / 2 ^ bits := by
      rw [next, Nat.mul_add_div positive, Nat.div_eq_of_lt small, Nat.add_zero]
    have remainder : (k + 1) % 2 ^ bits = k % 2 ^ bits + 1 := by
      rw [next, Nat.mul_add_mod, Nat.mod_eq_of_lt small]
    rw [quotient, remainder]
    ring

theorem value_strictMono (bits : Nat) : StrictMono (value bits) := by
  apply strictMono_nat_of_lt_succ
  intro k
  rw [value_succ]
  exact Nat.lt_add_of_pos_right (Nat.two_pow_pos _)

theorem value_multiple (q : Nat) : value bits (q * 2 ^ bits) = 2 ^ (bits + q) := by
  unfold value
  rw [Nat.mul_mod_left, Nat.mul_div_cancel _ (Nat.two_pow_pos bits), Nat.add_zero, Nat.pow_add]

section Position

/-- The leading bits of a number that has enough of them. -/
theorem leading (large : 2 ^ bits ≤ x) : 2 ^ bits ≤ x / 2 ^ (Nat.log2 x - bits) ∧
    x / 2 ^ (Nat.log2 x - bits) < 2 ^ bits + 2 ^ bits := by
  have some_ : x ≠ 0 := by
    have positive := Nat.two_pow_pos bits
    omega
  have le : bits ≤ Nat.log2 x := (Nat.le_log2 some_).mpr large
  have unit := Nat.two_pow_pos (Nat.log2 x - bits)
  have lower := Nat.log2_self_le some_
  have upper : x < 2 ^ (Nat.log2 x + 1) := Nat.lt_log2_self
  have split : 2 ^ Nat.log2 x = 2 ^ bits * 2 ^ (Nat.log2 x - bits) := by
    rw [← Nat.pow_add, Nat.add_sub_cancel' le]
  constructor
  · rw [Nat.le_div_iff_mul_le unit, ← split]
    exact lower
  · rw [Nat.div_lt_iff_lt_mul unit, Nat.add_mul, ← split, ← Nat.two_mul, ← Nat.pow_succ']
    exact upper

theorem value_position (large : 2 ^ bits ≤ x) : value bits (position bits x) =
    x / 2 ^ (Nat.log2 x - bits) * 2 ^ (Nat.log2 x - bits) ∧
    position bits x / 2 ^ bits = Nat.log2 x - bits := by
  obtain ⟨lower, upper⟩ := leading large
  have small : x / 2 ^ (Nat.log2 x - bits) - 2 ^ bits < 2 ^ bits := by omega
  have exponent : position bits x / 2 ^ bits = Nat.log2 x - bits := by
    unfold position
    rw [Nat.mul_comm, Nat.mul_add_div (Nat.two_pow_pos bits), Nat.div_eq_of_lt small, Nat.add_zero]
  have fraction : position bits x % 2 ^ bits = x / 2 ^ (Nat.log2 x - bits) - 2 ^ bits := by
    unfold position
    rw [Nat.mul_comm, Nat.mul_add_mod, Nat.mod_eq_of_lt small]
  refine ⟨?_, exponent⟩
  unfold value
  rw [exponent, fraction, Nat.add_sub_cancel' lower]

/-- The numbers up to `x` are those at the positions up to that of `x`. -/
theorem value_le_iff (large : 2 ^ bits ≤ x) : value bits k ≤ x ↔ k ≤ position bits x := by
  obtain ⟨at_, exponent⟩ := value_position large
  have unit := Nat.two_pow_pos (Nat.log2 x - bits)
  have parts := Nat.div_add_mod' x (2 ^ (Nat.log2 x - bits))
  have rest := Nat.mod_lt x unit
  have next : x < value bits (position bits x + 1) := by
    rw [value_succ, at_, exponent]
    omega
  constructor
  · intro le
    by_contra above
    have later : value bits (position bits x + 1) ≤ value bits k :=
      (value_strictMono bits).monotone (Nat.lt_of_not_le above)
    omega
  · intro le
    have earlier := (value_strictMono bits).monotone le
    omega

end Position

end Scudo.Lib.SignificantBits
