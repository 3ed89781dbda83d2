import Mathlib.Tactic.Ring
import Mathlib.Tactic.Linarith

/-!
Unsigned machine arithmetic and the rounding helpers of `common.h`. A `uptr` or
`u32` is a natural number below `2 ^ w`; every addition and subtraction that the
code makes on it wraps through `wrap`, `wadd` or `wsub`.
-/

namespace Scudo

/-- Reduction to a `w`-bit unsigned value. -/
def wrap (w x : Nat) : Nat := x % 2 ^ w

def wadd (w x y : Nat) : Nat := wrap w (x + y)

def wsub (w x y : Nat) : Nat := wrap w (x + 2 ^ w - y)

/-- Bitwise complement of a `w`-bit value. -/
def wnot (w x : Nat) : Nat := 2 ^ w - 1 - x

def isPowerOfTwo (x : Nat) : Bool := x != 0 && x &&& (x - 1) == 0

def roundUp (w x boundary : Nat) : Nat :=
  wrap w (x + boundary - 1) &&& wnot w (boundary - 1)

def roundDown (w x boundary : Nat) : Nat := x &&& wnot w (boundary - 1)

def roundUpSlow (x boundary : Nat) : Nat := (x + boundary - 1) / boundary * boundary

def roundDownSlow (x boundary : Nat) : Nat := x / boundary * boundary

def isAligned (x alignment : Nat) : Bool := x &&& (alignment - 1) == 0

theorem wrap_eq {w x : Nat} (bound : x < 2 ^ w) : wrap w x = x := Nat.mod_eq_of_lt bound

theorem wrap_lt (w x : Nat) : wrap w x < 2 ^ w := Nat.mod_lt _ (Nat.two_pow_pos w)

theorem wadd_eq {w x y : Nat} (bound : x + y < 2 ^ w) : wadd w x y = x + y := wrap_eq bound

theorem wsub_eq {w x y : Nat} (bound : x < 2 ^ w) (le : y ≤ x) : wsub w x y = x - y := by
  unfold wsub wrap
  rw [show x + 2 ^ w - y = x - y + 2 ^ w by omega, Nat.add_mod_right]
  exact Nat.mod_eq_of_lt (by omega)

/-- Subtracting past zero lands close below `2 ^ w`. -/
theorem wsub_underflow {w x y : Nat} (bound : y ≤ 2 ^ w) (lt : x < y) :
    wsub w x y = x + 2 ^ w - y := by
  unfold wsub
  exact wrap_eq (by omega)

/-- Counters that wrap still tell their distance while it is below `2 ^ w`. -/
theorem wsub_wrap {w x y : Nat} (le : y ≤ x) (close : x - y < 2 ^ w) :
    wsub w (wrap w x) (wrap w y) = x - y := by
  have split : x = y + (x - y) := by omega
  have below := wrap_lt w y
  unfold wsub wrap at *
  rw [Nat.add_sub_assoc below.le, Nat.mod_add_mod]
  have shift : x + (2 ^ w - y % 2 ^ w) = (x - y) + 2 ^ w * (y / 2 ^ w + 1) := by
    have parts := Nat.div_add_mod y (2 ^ w)
    rw [Nat.mul_add, Nat.mul_one]
    omega
  rw [shift, Nat.add_mul_mod_self_left]
  exact Nat.mod_eq_of_lt close

/-- Wrapping subtraction and addition of words, by whether they wrap. -/
theorem wsub_ite {w x y : Nat} (boundX : x < 2 ^ w) (boundY : y < 2 ^ w) :
    wsub w x y = if y ≤ x then x - y else x + 2 ^ w - y := by
  split_ifs with le
  · exact wsub_eq boundX le
  · exact wsub_underflow boundY.le (by omega)

theorem wadd_ite {w x y : Nat} (boundX : x < 2 ^ w) (boundY : y < 2 ^ w) :
    wadd w x y = if x + y < 2 ^ w then x + y else x + y - 2 ^ w := by
  split_ifs with fits
  · exact wadd_eq fits
  · unfold wadd wrap
    rw [Nat.mod_eq_sub_mod (by omega), Nat.mod_eq_of_lt (by omega)]

theorem wrap_succ (w x : Nat) : wrap w (wrap w x + 1) = wrap w (x + 1) := Nat.mod_add_mod _ _ _

theorem wrap_add (w x y : Nat) : wrap w (wrap w x + y) = wrap w (x + y) := Nat.mod_add_mod _ _ _

/-- Masking a wrapped counter with a smaller power of two. -/
theorem wrap_and_mask {w k x : Nat} (fits : k ≤ w) : wrap w x &&& (2 ^ k - 1) = x % 2 ^ k := by
  unfold wrap
  rw [Nat.and_two_pow_sub_one_eq_mod, Nat.mod_mod_of_dvd _ (Nat.pow_dvd_pow 2 fits)]

theorem isPowerOfTwo_iff {x : Nat} : isPowerOfTwo x = true ↔ ∃ k, x = 2 ^ k := by
  have power := Nat.ne_zero_and_sub_one_eq_zero_iff_isPowerOfTwo (n := x)
  simpa [isPowerOfTwo, Nat.isPowerOfTwo] using power

theorem isPowerOfTwo_pos {x : Nat} (power : isPowerOfTwo x = true) : 0 < x := by
  obtain ⟨k, rfl⟩ := isPowerOfTwo_iff.mp power
  exact Nat.two_pow_pos k

/-- Of two powers of two the smaller divides the larger. -/
theorem isPowerOfTwo_dvd {x y : Nat} (powerX : isPowerOfTwo x = true)
    (powerY : isPowerOfTwo y = true) (le : x ≤ y) : x ∣ y := by
  obtain ⟨j, rfl⟩ := isPowerOfTwo_iff.mp powerX
  obtain ⟨k, rfl⟩ := isPowerOfTwo_iff.mp powerY
  exact Nat.pow_dvd_pow 2 ((Nat.pow_le_pow_iff_right (by decide)).mp le)

/-- Masking with the complement of `2 ^ k - 1` clears the low `k` bits. -/
theorem and_wnot {w k x : Nat} (fits : k ≤ w) (bound : x < 2 ^ w) :
    x &&& wnot w (2 ^ k - 1) = x / 2 ^ k * 2 ^ k := by
  have powers : 2 ^ k ≤ 2 ^ w := Nat.pow_le_pow_right (by decide) fits
  have mask : wnot w (2 ^ k - 1) = 2 ^ w - 2 ^ k := by
    have positive := Nat.two_pow_pos k
    unfold wnot
    omega
  have factored : 2 ^ w - 2 ^ k = (2 ^ (w - k) - 1) * 2 ^ k := by
    rw [Nat.sub_mul, ← Nat.pow_add, Nat.sub_add_cancel fits, Nat.one_mul]
  rw [mask, factored]
  apply Nat.eq_of_testBit_eq
  intro i
  simp only [Nat.testBit_and, Nat.testBit_mul_two_pow, Nat.testBit_two_pow_sub_one,
    Nat.testBit_div_two_pow]
  by_cases low : k ≤ i
  · simp only [low, decide_true, Bool.true_and, Nat.sub_add_cancel]
    by_cases high : i < w
    · simp [show i - k < w - k by omega]
    · have zero : x.testBit i = false :=
        Nat.testBit_lt_two_pow (bound.trans_le (Nat.pow_le_pow_right (by decide) (by omega)))
      simp [zero]
  · simp [low]

/-- The mask form of `roundDown` agrees with the division form of `roundDownSlow`. -/
theorem roundDown_eq {w x boundary : Nat} (power : isPowerOfTwo boundary = true)
    (small : boundary < 2 ^ w) (bound : x < 2 ^ w) :
    roundDown w x boundary = roundDownSlow x boundary := by
  obtain ⟨k, rfl⟩ := isPowerOfTwo_iff.mp power
  exact and_wnot ((Nat.pow_lt_pow_iff_right (by decide)).mp small).le bound

/-- Without overflow `roundUp` agrees with `roundUpSlow`. -/
theorem roundUp_eq {w x boundary : Nat} (power : isPowerOfTwo boundary = true)
    (bound : x + boundary - 1 < 2 ^ w) (small : boundary < 2 ^ w) :
    roundUp w x boundary = roundUpSlow x boundary := by
  obtain ⟨k, rfl⟩ := isPowerOfTwo_iff.mp power
  unfold roundUp roundUpSlow
  rw [wrap_eq bound]
  exact and_wnot ((Nat.pow_lt_pow_iff_right (by decide)).mp small).le bound

theorem isAligned_iff {x alignment : Nat} (power : isPowerOfTwo alignment = true) :
    isAligned x alignment = true ↔ alignment ∣ x := by
  obtain ⟨k, rfl⟩ := isPowerOfTwo_iff.mp power
  simp [isAligned, Nat.and_two_pow_sub_one_eq_mod, Nat.dvd_iff_mod_eq_zero]

theorem roundDownSlow_le (x boundary : Nat) : roundDownSlow x boundary ≤ x :=
  Nat.div_mul_le_self x boundary

theorem dvd_roundDownSlow (x boundary : Nat) : boundary ∣ roundDownSlow x boundary :=
  Nat.dvd_mul_left boundary _

theorem lt_roundDownSlow_add (x : Nat) {boundary : Nat} (positive : 0 < boundary) :
    x < roundDownSlow x boundary + boundary := by
  have split := Nat.div_add_mod x boundary
  have small := Nat.mod_lt x positive
  unfold roundDownSlow
  rw [Nat.mul_comm]
  omega

/-- `roundDownSlow` is the largest multiple not above its argument. -/
theorem le_roundDownSlow {x y boundary : Nat} (multiple : boundary ∣ y) (le : y ≤ x) :
    y ≤ roundDownSlow x boundary := by
  obtain ⟨q, rfl⟩ := multiple
  rcases Nat.eq_zero_or_pos boundary with zero | positive
  · simp [zero]
  · unfold roundDownSlow
    rw [Nat.mul_comm]
    exact Nat.mul_le_mul_right _ ((Nat.le_div_iff_mul_le positive).mpr (by rwa [Nat.mul_comm]))

/-- Rounding commutes with adding a multiple of the boundary. -/
theorem roundDownSlow_add {a x boundary : Nat} (multiple : boundary ∣ a) :
    roundDownSlow (a + x) boundary = a + roundDownSlow x boundary := by
  obtain ⟨q, rfl⟩ := multiple
  rcases Nat.eq_zero_or_pos boundary with rfl | positive
  · simp [roundDownSlow]
  · unfold roundDownSlow
    rw [Nat.mul_add_div positive, Nat.add_mul, Nat.mul_comm boundary q]

theorem le_roundUpSlow (x : Nat) {boundary : Nat} (positive : 0 < boundary) :
    x ≤ roundUpSlow x boundary := by
  have below := lt_roundDownSlow_add (x + boundary - 1) positive
  change x ≤ roundDownSlow (x + boundary - 1) boundary
  omega

theorem dvd_roundUpSlow (x boundary : Nat) : boundary ∣ roundUpSlow x boundary :=
  Nat.dvd_mul_left boundary _

/-- `roundUpSlow` is the smallest multiple not below its argument. -/
theorem roundUpSlow_le {x y boundary : Nat} (positive : 0 < boundary) (multiple : boundary ∣ y)
    (le : x ≤ y) : roundUpSlow x boundary ≤ y := by
  obtain ⟨q, rfl⟩ := multiple
  unfold roundUpSlow
  rw [Nat.mul_comm boundary q]
  apply Nat.mul_le_mul_right
  rw [Nat.div_le_iff_le_mul_add_pred positive]
  omega

theorem roundUpSlow_lt (x : Nat) {boundary : Nat} (positive : 0 < boundary) :
    roundUpSlow x boundary < x + boundary := by
  have le := roundDownSlow_le (x + boundary - 1) boundary
  change roundDownSlow (x + boundary - 1) boundary < x + boundary
  omega

theorem roundUpSlow_of_dvd {x boundary : Nat} (positive : 0 < boundary) (multiple : boundary ∣ x) :
    roundUpSlow x boundary = x :=
  le_antisymm (roundUpSlow_le positive multiple le_rfl) (le_roundUpSlow x positive)

/-- Rounding up an address that is a multiple already does nothing, and does not wrap. -/
theorem roundUp_of_dvd {w x boundary : Nat} (power : isPowerOfTwo boundary = true)
    (small : boundary < 2 ^ w) (bound : x < 2 ^ w) (multiple : boundary ∣ x) :
    roundUp w x boundary = x := by
  have positive := isPowerOfTwo_pos power
  have whole : boundary ∣ 2 ^ w :=
    isPowerOfTwo_dvd power (isPowerOfTwo_iff.mpr ⟨w, rfl⟩) small.le
  have room : x + boundary ≤ 2 ^ w := by
    obtain ⟨q, rfl⟩ := multiple
    obtain ⟨r, total⟩ := whole
    rw [total] at bound ⊢
    have less : q < r := Nat.lt_of_mul_lt_mul_left bound
    calc boundary * q + boundary = boundary * (q + 1) := by ring
      _ ≤ boundary * r := Nat.mul_le_mul_left _ less
  rw [roundUp_eq power (by omega) small, roundUpSlow_of_dvd positive multiple]

/-- A page size the allocator can run with: a power of two that holds the arena
header page and does not exceed one core's arena. -/
structure PageSize where
  bytes : Nat
  power : isPowerOfTwo bytes = true
  atLeast : 4096 ≤ bytes
  atMost : bytes ≤ 2 ^ 29

namespace PageSize

theorem pos (page : PageSize) : 0 < page.bytes := isPowerOfTwo_pos page.power

/-- The 4 KB page. -/
def small : PageSize := ⟨4096, by decide, by decide, by decide⟩

end PageSize

end Scudo
