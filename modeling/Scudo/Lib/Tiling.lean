import Mathlib.Algebra.Order.Floor.Div
import Mathlib.Order.Interval.Finset.Nat
import Mathlib.Tactic.Linarith
import Mathlib.Tactic.Ring

/-!
The line cut into blocks of `block` bytes and into pages of `page` bytes, both from 0 on: which
blocks have bytes in a page, and how many they are.
-/

namespace Scudo.Lib.Tiling

/-- The blocks with bytes in a page. -/
def touching (block page j : Nat) : Finset Nat :=
  Finset.Ico (j * page / block) ((j + 1) * page ⌈/⌉ block)

variable {block page i j x y n : Nat}

theorem ceilDiv_le (positive : 0 < y) : x ⌈/⌉ y ≤ i ↔ x ≤ i * y := by
  rw [ceilDiv_le_iff_le_mul positive, Nat.mul_comm]

/-- The rounded quotient is the number of multiples below. -/
theorem lt_ceilDiv (positive : 0 < y) : i < x ⌈/⌉ y ↔ i * y < x := by
  rw [← Nat.not_le, ceilDiv_le positive, Nat.not_le]

theorem le_ceilDiv_mul (positive : 0 < y) : x ≤ x ⌈/⌉ y * y := (ceilDiv_le positive).mp le_rfl

theorem ceilDiv_mul_lt (positive : 0 < y) : x ⌈/⌉ y * y < x + y := by
  have split := Nat.div_add_mod (x + y - 1) y
  rw [Nat.ceilDiv_eq_add_pred_div]
  rw [Nat.mul_comm] at split
  omega

theorem ceilDiv_mono (positive : 0 < block) (le : x ≤ y) : x ⌈/⌉ block ≤ y ⌈/⌉ block :=
  (ceilDiv_le positive).mpr (le.trans (le_ceilDiv_mul positive))

theorem ceilDiv_eq (positive : 0 < y) (lower : x ≤ i * y) (upper : i * y < x + y) :
    x ⌈/⌉ y = i := by
  apply le_antisymm
  · exact (ceilDiv_le positive).mpr lower
  · by_contra less
    have step : (x ⌈/⌉ y + 1) * y ≤ i * y := Nat.mul_le_mul_right _ (by omega)
    have above := le_ceilDiv_mul (x := x) positive
    rw [Nat.add_mul, Nat.one_mul] at step
    omega

theorem ceilDiv_mul_self (positive : 0 < y) : i * y ⌈/⌉ y = i :=
  ceilDiv_eq positive le_rfl (by omega)

/-- The multiples between two numbers. -/
theorem ceilDiv_sub_le_of_dvd (positive : 0 < block) (whole : block ∣ y) :
    y ⌈/⌉ block - x ⌈/⌉ block ≤ (y - x) / block := by
  obtain ⟨q, rfl⟩ := whole
  have lower := le_ceilDiv_mul (x := x) positive
  rw [Nat.mul_comm block q, ceilDiv_mul_self positive, Nat.le_div_iff_mul_le positive, Nat.sub_mul]
  omega

theorem ceilDiv_sub_le (positive : 0 < block) :
    y ⌈/⌉ block - x ⌈/⌉ block ≤ (y - x) / block + 1 := by
  have lower := le_ceilDiv_mul (x := x) positive
  have upper := ceilDiv_mul_lt (x := y) positive
  have most : y ⌈/⌉ block - x ⌈/⌉ block - 1 ≤ (y - x) / block := by
    rw [Nat.le_div_iff_mul_le positive, Nat.sub_mul, Nat.sub_mul, Nat.one_mul]
    omega
  omega

theorem mem_touching (positive : 0 < block) :
    i ∈ touching block page j ↔ i * block < (j + 1) * page ∧ j * page < (i + 1) * block := by
  unfold touching
  rw [Finset.mem_Ico, lt_ceilDiv positive, and_comm, Nat.div_le_iff_le_mul_add_pred positive,
    Nat.mul_comm block, Nat.add_mul i, Nat.one_mul]
  constructor
  · rintro ⟨first, second⟩
    exact ⟨first, by omega⟩
  · rintro ⟨first, second⟩
    exact ⟨first, by omega⟩

theorem card_touching : (touching block page j).card =
    (j + 1) * page ⌈/⌉ block - j * page / block := Nat.card_Ico _ _

/-- Where a boundary is at the start of the page, the quotients agree. -/
theorem div_eq_ceilDiv (positive : 0 < y) (boundary : x ⌈/⌉ y * y = x) : x / y = x ⌈/⌉ y := by
  calc x / y = x ⌈/⌉ y * y / y := by rw [boundary]
    _ = x ⌈/⌉ y := Nat.mul_div_cancel _ positive

theorem div_add_one_eq_ceilDiv (positive : 0 < y) (inside : x < x ⌈/⌉ y * y) :
    x / y + 1 = x ⌈/⌉ y := by
  have lower := Nat.div_mul_le_self x y
  have upper := Nat.lt_div_mul_add positive (a := x)
  symm
  apply ceilDiv_eq positive
  · rw [Nat.add_mul, Nat.one_mul]
    omega
  · have different : x / y * y ≠ x := by
      intro same
      have exactly : x ⌈/⌉ y = x / y := by
        calc x ⌈/⌉ y = x / y * y ⌈/⌉ y := by rw [same]
          _ = x / y := ceilDiv_mul_self positive
      rw [exactly, same] at inside
      omega
    rw [Nat.add_mul, Nat.one_mul]
    omega

/-- Before the first boundary in a page there are bytes of one more block, unless the page starts
there. -/
theorem card_touching_boundary (positive : 0 < block) :
    (touching block page j).card = (j + 1) * page ⌈/⌉ block - j * page ⌈/⌉ block +
      if j * page < j * page ⌈/⌉ block * block then 1 else 0 := by
  have lower := le_ceilDiv_mul (x := j * page) positive
  have more : j * page ⌈/⌉ block ≤ (j + 1) * page ⌈/⌉ block :=
    ceilDiv_mono positive (Nat.mul_le_mul_right _ (Nat.le_succ j))
  rw [card_touching]
  split_ifs with inside
  · have floor := div_add_one_eq_ceilDiv positive inside
    omega
  · have floor := div_eq_ceilDiv positive (x := j * page) (by omega)
    omega

/-- Pages that are whole numbers of blocks. -/
theorem card_touching_of_dvd (positive : 0 < block) (whole : block ∣ page) :
    (touching block page j).card = page / block := by
  obtain ⟨q, rfl⟩ := whole
  have boundary : ∀ k, k * (block * q) = k * q * block := by
    intro k
    ring
  rw [card_touching, boundary, boundary, ceilDiv_mul_self positive, Nat.mul_div_cancel _ positive,
    Nat.mul_div_cancel_left _ positive, Nat.add_mul, Nat.one_mul, Nat.add_sub_cancel_left]

/-- Blocks that are whole numbers of pages. -/
theorem card_touching_of_dvd_block (pages : 0 < page) (positive : 0 < block) (whole : page ∣ block) :
    (touching block page j).card = 1 := by
  obtain ⟨q, rfl⟩ := whole
  have some : 0 < q := Nat.pos_of_mul_pos_left positive
  rw [card_touching, Nat.mul_comm page q, Nat.mul_div_mul_right _ _ pages]
  have next : (j + 1) * page ⌈/⌉ (q * page) = j / q + 1 := by
    have split := Nat.div_add_mod j q
    have small := Nat.mod_lt j some
    apply ceilDiv_eq (Nat.mul_pos some pages)
    · have le : j + 1 ≤ (j / q + 1) * q := by
        rw [Nat.add_mul, Nat.one_mul, Nat.mul_comm (j / q)]
        omega
      calc (j + 1) * page ≤ (j / q + 1) * q * page := Nat.mul_le_mul_right _ le
        _ = (j / q + 1) * (q * page) := Nat.mul_assoc _ _ _
    · have less : (j / q + 1) * q < j + 1 + q := by
        rw [Nat.add_mul, Nat.one_mul, Nat.mul_comm (j / q)]
        omega
      calc (j / q + 1) * (q * page) = (j / q + 1) * q * page := (Nat.mul_assoc _ _ _).symm
        _ < (j + 1 + q) * page := Nat.mul_lt_mul_of_pos_right less pages
        _ = (j + 1) * page + q * page := Nat.add_mul _ _ _
  rw [next]
  omega

/-- A page has at most two blocks more than fit into it. -/
theorem card_touching_le (positive : 0 < block) :
    (touching block page j).card ≤ page / block + 2 := by
  have lower := Nat.lt_div_mul_add positive (a := page)
  have start := Nat.lt_div_mul_add positive (a := j * page)
  have next : (j + 1) * page ⌈/⌉ block ≤ j * page / block + (page / block + 2) := by
    rw [ceilDiv_le positive, Nat.add_mul, Nat.add_mul, Nat.add_mul, Nat.one_mul]
    omega
  rw [card_touching]
  exact Nat.sub_le_iff_le_add'.mpr next

/-- A page smaller than a block has bytes of two blocks at most. -/
theorem card_touching_le_two (positive : 0 < block) (small : page ≤ block) :
    (touching block page j).card ≤ 2 := by
  have start := Nat.lt_div_mul_add positive (a := j * page)
  have next : (j + 1) * page ⌈/⌉ block ≤ j * page / block + 2 := by
    rw [ceilDiv_le positive, Nat.add_mul, Nat.add_mul, Nat.one_mul]
    omega
  rw [card_touching]
  omega

/-- Where what a page has more than whole blocks divides a block, every page has bytes of the same
number of blocks. -/
theorem card_touching_of_rest (positive : 0 < block) (rest : page % block ≠ 0)
    (divides : page % block ∣ block) : (touching block page j).card = page / block + 1 := by
  have pageSplit := Nat.div_add_mod page block
  have startSplit := Nat.div_add_mod (j * page) block
  have small := Nat.mod_lt (j * page) positive
  have dividesPage : page % block ∣ page := by
    rw [← Nat.dvd_mod_iff divides]
  have dividesStart : page % block ∣ j * page % block :=
    (Nat.dvd_mod_iff divides).mpr (dividesPage.mul_left j)
  -- what is left of the block at the start of the page is a multiple of the rest as well
  have room : j * page % block + page % block ≤ block := by
    have left : page % block ∣ block - j * page % block := Nat.dvd_sub divides dividesStart
    have le := Nat.le_of_dvd (by omega) left
    omega
  have next : (j + 1) * page ⌈/⌉ block = j * page / block + page / block + 1 := by
    apply ceilDiv_eq positive
    · rw [Nat.add_mul, Nat.add_mul, Nat.add_mul, Nat.one_mul, Nat.one_mul,
        Nat.mul_comm _ block, Nat.mul_comm _ block]
      omega
    · rw [Nat.add_mul, Nat.add_mul, Nat.add_mul, Nat.one_mul, Nat.one_mul,
        Nat.mul_comm _ block, Nat.mul_comm _ block]
      omega
  rw [card_touching, next, Nat.add_assoc, Nat.add_sub_cancel_left]

/-- The boundary at or after the next page, from the one of this page. -/
theorem next_boundary (positive : 0 < block)
    (lower : (j + 1) * page ≤ (j * page ⌈/⌉ block + n) * block)
    (upper : n = 0 ∨ (j * page ⌈/⌉ block + n - 1) * block < (j + 1) * page) :
    (j + 1) * page ⌈/⌉ block = j * page ⌈/⌉ block + n := by
  apply le_antisymm
  · exact (ceilDiv_le positive).mpr lower
  · rcases upper with rfl | upper
    · exact ceilDiv_mono positive (Nat.mul_le_mul_right _ (Nat.le_succ j))
    · have less := (lt_ceilDiv positive).mpr upper
      omega

end Scudo.Lib.Tiling
