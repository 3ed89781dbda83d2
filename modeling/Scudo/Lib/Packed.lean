import Mathlib.Data.Nat.Bitwise
import Mathlib.Data.Nat.ModEq
import Mathlib.Logic.Function.Basic
import Mathlib.Tactic.Common
import Mathlib.Tactic.Ring

/-!
Counters of `bits` bits each, `perWord` of them in a word. As long as no counter passes its
maximum, adding to one leaves its neighbours alone.
-/

namespace Scudo.Lib

/-- The bits of a word from `offset` on. -/
def field (bits offset word : Nat) : Nat := word / 2 ^ offset % 2 ^ bits

section Field

variable {bits offset other word n : Nat}

theorem field_add_self (room : field bits offset word + n < 2 ^ bits) :
    field bits offset (word + n * 2 ^ offset) = field bits offset word + n := by
  unfold field at room ⊢
  rw [Nat.add_mul_div_right _ _ (Nat.two_pow_pos offset), ← Nat.mod_add_mod]
  exact Nat.mod_eq_of_lt room

/-- Nothing is carried out of the field. -/
theorem add_field_div (room : field bits offset word + n < 2 ^ bits) :
    (word + n * 2 ^ offset) / 2 ^ (offset + bits) = word / 2 ^ (offset + bits) := by
  have split := Nat.div_add_mod (word / 2 ^ offset) (2 ^ bits)
  have positive := Nat.two_pow_pos bits
  unfold field at room
  calc (word + n * 2 ^ offset) / 2 ^ (offset + bits)
      = (word / 2 ^ offset + n) / 2 ^ bits := by
        rw [Nat.pow_add, ← Nat.div_div_eq_div_mul,
          Nat.add_mul_div_right _ _ (Nat.two_pow_pos offset)]
    _ = word / 2 ^ offset / 2 ^ bits := by
        rw [← split, Nat.add_assoc, Nat.mul_add_div positive, Nat.mul_add_div positive,
          Nat.div_eq_of_lt room, Nat.div_eq_of_lt (Nat.mod_lt _ positive)]
    _ = word / 2 ^ (offset + bits) := by rw [Nat.div_div_eq_div_mul, ← Nat.pow_add]

theorem field_add_above (room : field bits offset word + n < 2 ^ bits)
    (above : offset + bits ≤ other) :
    field bits other (word + n * 2 ^ offset) = field bits other word := by
  have shift : 2 ^ other = 2 ^ (offset + bits) * 2 ^ (other - (offset + bits)) := by
    rw [← Nat.pow_add, Nat.add_sub_cancel' above]
  unfold field
  rw [shift, ← Nat.div_div_eq_div_mul, ← Nat.div_div_eq_div_mul, add_field_div room]

theorem field_add_below (below : other + bits ≤ offset) :
    field bits other (word + n * 2 ^ offset) = field bits other word := by
  have shift : n * 2 ^ offset = n * 2 ^ (offset - other - bits) * 2 ^ bits * 2 ^ other := by
    rw [Nat.mul_assoc, Nat.mul_assoc, ← Nat.pow_add, ← Nat.pow_add]
    congr 2
    omega
  unfold field
  rw [shift, Nat.add_mul_div_right _ _ (Nat.two_pow_pos other), Nat.add_mul_mod_self_right]

/-- The word stays a word. -/
theorem add_field_lt {width : Nat} (room : field bits offset word + n < 2 ^ bits)
    (fits : offset + bits ≤ width) (bound : word < 2 ^ width) :
    word + n * 2 ^ offset < 2 ^ width := by
  have shift : 2 ^ width = 2 ^ (width - (offset + bits)) * 2 ^ (offset + bits) := by
    rw [← Nat.pow_add, Nat.sub_add_cancel fits]
  have positive := Nat.two_pow_pos (offset + bits)
  rw [shift, ← Nat.div_lt_iff_lt_mul positive] at bound ⊢
  rw [add_field_div room]
  exact bound

theorem field_or_self : field bits offset (word ||| (2 ^ bits - 1) <<< offset) = 2 ^ bits - 1 := by
  unfold field
  apply Nat.eq_of_testBit_eq
  intro i
  simp only [Nat.testBit_mod_two_pow, Nat.testBit_div_two_pow, Nat.testBit_or,
    Nat.testBit_shiftLeft, Nat.testBit_two_pow_sub_one]
  by_cases low : i < bits
  · simp [low]
  · simp [low]

theorem field_or_other (apart : offset + bits ≤ other ∨ other + bits ≤ offset) :
    field bits other (word ||| (2 ^ bits - 1) <<< offset) = field bits other word := by
  unfold field
  apply Nat.eq_of_testBit_eq
  intro i
  simp only [Nat.testBit_mod_two_pow, Nat.testBit_div_two_pow, Nat.testBit_or,
    Nat.testBit_shiftLeft, Nat.testBit_two_pow_sub_one]
  by_cases low : i < bits
  · have outside : (decide (i + other ≥ offset) && decide (i + other - offset < bits)) = false := by
      rw [← Bool.not_eq_true, Bool.and_eq_true, decide_eq_true_eq, decide_eq_true_eq]
      omega
    rw [outside, Bool.or_false]
  · simp [low]

theorem or_field_lt {width : Nat} (fits : offset + bits ≤ width) (bound : word < 2 ^ width) :
    word ||| (2 ^ bits - 1) <<< offset < 2 ^ width := by
  apply Nat.or_lt_two_pow bound
  rw [Nat.shiftLeft_eq]
  have positive := Nat.two_pow_pos bits
  calc (2 ^ bits - 1) * 2 ^ offset < 2 ^ bits * 2 ^ offset :=
        Nat.mul_lt_mul_of_pos_right (by omega) (Nat.two_pow_pos offset)
    _ = 2 ^ (offset + bits) := by rw [Nat.add_comm offset, Nat.pow_add]
    _ ≤ 2 ^ width := Nat.pow_le_pow_right (by decide) fits

end Field

/-- Counter number `i`. -/
def packed (bits perWord : Nat) (words : Nat → Nat) (i : Nat) : Nat :=
  field bits (i % perWord * bits) (words (i / perWord))

section Packed

variable {bits perWord width i j n : Nat} {words : Nat → Nat}

/-- Different counters of one word are apart. -/
theorem offsets_apart (different : i ≠ j) (sameWord : i / perWord = j / perWord) :
    i % perWord * bits + bits ≤ j % perWord * bits ∨
      j % perWord * bits + bits ≤ i % perWord * bits := by
  have first := Nat.div_add_mod i perWord
  have second := Nat.div_add_mod j perWord
  rw [sameWord] at first
  have places : i % perWord ≠ j % perWord := by omega
  rcases Nat.lt_or_gt_of_ne places with less | less
  · refine Or.inl ?_
    calc i % perWord * bits + bits = (i % perWord + 1) * bits := by ring
      _ ≤ j % perWord * bits := Nat.mul_le_mul_right _ less
  · refine Or.inr ?_
    calc j % perWord * bits + bits = (j % perWord + 1) * bits := by ring
      _ ≤ i % perWord * bits := Nat.mul_le_mul_right _ less

/-- Adding to one counter, as long as it does not pass its maximum, changes no other one. -/
theorem packed_add (room : packed bits perWord words i + n < 2 ^ bits) :
    packed bits perWord (Function.update words (i / perWord)
      (words (i / perWord) + n * 2 ^ (i % perWord * bits))) j =
      if j = i then packed bits perWord words i + n else packed bits perWord words j := by
  unfold packed at room ⊢
  split_ifs with same
  · rw [same, Function.update_self]
    exact field_add_self room
  · by_cases word : j / perWord = i / perWord
    · rw [word, Function.update_self]
      rcases offsets_apart (Ne.symm same) word.symm with above | below
      · exact field_add_above room above
      · exact field_add_below below
    · rw [Function.update_of_ne word]

/-- Setting all bits of one counter changes no other one. -/
theorem packed_fill :
    packed bits perWord (Function.update words (i / perWord)
      (words (i / perWord) ||| (2 ^ bits - 1) <<< (i % perWord * bits))) j =
      if j = i then 2 ^ bits - 1 else packed bits perWord words j := by
  unfold packed
  split_ifs with same
  · rw [same, Function.update_self]
    exact field_or_self
  · by_cases word : j / perWord = i / perWord
    · rw [word, Function.update_self]
      exact field_or_other (offsets_apart (Ne.symm same) word.symm)
    · rw [Function.update_of_ne word]

end Packed

end Scudo.Lib
