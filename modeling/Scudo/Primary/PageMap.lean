import Scudo.Common
import Scudo.Lib.Packed

/-!
`RegionPageMap`: one counter for each page of a region, packed into words of 64 bits. The maximum
of a counter stands for a page of which every block is counted.
-/

namespace Scudo.Primary
open Scudo.Lib

def getMostSignificantSetBitIndex (x : Nat) : Nat := Nat.log2 x

def roundUpPowerOfTwo (size : Nat) : Nat :=
  if isPowerOfTwo size then size else 2 ^ (getMostSignificantSetBitIndex size + 1)

/-- Of a power of two. -/
def getLog2 (x : Nat) : Nat := Nat.log2 x

structure RegionPageMap where
  numCounters : Nat
  counterSizeBitsLog : Nat
  counterMask : Nat
  packingRatioLog : Nat
  bitOffsetMask : Nat
  data : Nat → Nat

namespace RegionPageMap

def maxCounterBits : Nat := 64

/-- The buffer that `reset` gets reads as zero. -/
def reset (countersPerRegion maxValue : Nat) : RegionPageMap :=
  let counterSizeBits := roundUpPowerOfTwo (getMostSignificantSetBitIndex maxValue + 1)
  let counterSizeBitsLog := getLog2 counterSizeBits
  let packingRatio := maxCounterBits >>> counterSizeBitsLog
  { numCounters := countersPerRegion
    counterSizeBitsLog := counterSizeBitsLog
    counterMask := (2 ^ 64 - 1) >>> (maxCounterBits - counterSizeBits)
    packingRatioLog := getLog2 packingRatio
    bitOffsetMask := packingRatio - 1
    data := fun _ => 0 }

def index (m : RegionPageMap) (i : Nat) : Nat := i >>> m.packingRatioLog

def bitOffset (m : RegionPageMap) (i : Nat) : Nat := (i &&& m.bitOffsetMask) <<< m.counterSizeBitsLog

def get (m : RegionPageMap) (i : Nat) : Nat :=
  (m.data (m.index i) >>> m.bitOffset i) &&& m.counterMask

def incN (m : RegionPageMap) (i n : Nat) : RegionPageMap :=
  { m with
    data := Function.update m.data (m.index i)
      (wadd 64 (m.data (m.index i)) (wrap 64 (n <<< m.bitOffset i))) }

def inc (m : RegionPageMap) (i : Nat) : RegionPageMap := m.incN i 1

/-- The indices of a loop from `first` to `last`, as far as there are counters. -/
def range (m : RegionPageMap) (first last : Nat) : List Nat :=
  List.range' first (min (last + 1) m.numCounters - first)

def incRange (m : RegionPageMap) (first last : Nat) : RegionPageMap :=
  (m.range first last).foldl inc m

def setAsAllCounted (m : RegionPageMap) (i : Nat) : RegionPageMap :=
  { m with
    data := Function.update m.data (m.index i)
      (m.data (m.index i) ||| m.counterMask <<< m.bitOffset i) }

def setAsAllCountedRange (m : RegionPageMap) (first last : Nat) : RegionPageMap :=
  (m.range first last).foldl setAsAllCounted m

def updateAsAllCountedIf (m : RegionPageMap) (i maxCount : Nat) : Bool × RegionPageMap :=
  if m.get i = m.counterMask then (true, m)
  else if m.get i = maxCount then (true, m.setAsAllCounted i)
  else (false, m)

/-- Counters of `2 ^ log` bits fill the words. -/
structure Sane (m : RegionPageMap) (log : Nat) : Prop where
  small : log ≤ 6
  bits : m.counterSizeBitsLog = log
  mask : m.counterMask = 2 ^ 2 ^ log - 1
  ratio : m.packingRatioLog = 6 - log
  offset : m.bitOffsetMask = 2 ^ (6 - log) - 1
  words : ∀ w, m.data w < 2 ^ 64

variable {m : RegionPageMap} {log i n first last : Nat}

theorem Sane.index_eq (sane : m.Sane log) (i : Nat) : m.index i = i / 2 ^ (6 - log) := by
  unfold index
  rw [sane.ratio, Nat.shiftRight_eq_div_pow]

theorem Sane.bitOffset_eq (sane : m.Sane log) (i : Nat) :
    m.bitOffset i = i % 2 ^ (6 - log) * 2 ^ log := by
  unfold bitOffset
  rw [sane.offset, sane.bits, Nat.and_two_pow_sub_one_eq_mod, Nat.shiftLeft_eq]

theorem Sane.get_eq (sane : m.Sane log) (i : Nat) :
    m.get i = packed (2 ^ log) (2 ^ (6 - log)) m.data i := by
  unfold get packed field
  rw [sane.index_eq, sane.bitOffset_eq, sane.mask, Nat.shiftRight_eq_div_pow,
    Nat.and_two_pow_sub_one_eq_mod]

/-- Every counter is inside its word. -/
theorem Sane.inside (sane : m.Sane log) (i : Nat) :
    i % 2 ^ (6 - log) * 2 ^ log + 2 ^ log ≤ 64 := by
  have small := Nat.mod_lt i (Nat.two_pow_pos (6 - log))
  calc i % 2 ^ (6 - log) * 2 ^ log + 2 ^ log = (i % 2 ^ (6 - log) + 1) * 2 ^ log := by ring
    _ ≤ 2 ^ (6 - log) * 2 ^ log := Nat.mul_le_mul_right _ small
    _ = 2 ^ 6 := by rw [← Nat.pow_add, Nat.sub_add_cancel sane.small]
    _ = 64 := by decide

/-- An increment that keeps the counter below the mask adds to this counter alone. -/
theorem Sane.get_incN (sane : m.Sane log) (room : m.get i + n ≤ m.counterMask) :
    (m.incN i n).Sane log ∧
      ∀ j, (m.incN i n).get j = if j = i then m.get i + n else m.get j := by
  have positive := Nat.two_pow_pos (2 ^ log)
  have bound := room
  rw [sane.get_eq, sane.mask, Nat.le_sub_one_iff_lt positive] at bound
  have word : m.data (i / 2 ^ (6 - log)) + n * 2 ^ (i % 2 ^ (6 - log) * 2 ^ log) < 2 ^ 64 :=
    add_field_lt bound (sane.inside i) (sane.words _)
  have added : wadd 64 (m.data (m.index i)) (wrap 64 (n <<< m.bitOffset i)) =
      m.data (i / 2 ^ (6 - log)) + n * 2 ^ (i % 2 ^ (6 - log) * 2 ^ log) := by
    rw [sane.index_eq, sane.bitOffset_eq, Nat.shiftLeft_eq, wrap_eq (by omega), wadd_eq word]
  have sane' : (m.incN i n).Sane log := by
    refine { sane with words := ?_ }
    intro w
    change Function.update m.data (m.index i) (wadd 64 _ _) w < 2 ^ 64
    rw [added, Function.update_apply]
    split_ifs
    · exact word
    · exact sane.words w
  refine ⟨sane', ?_⟩
  intro j
  rw [sane'.get_eq, sane.get_eq, sane.get_eq j]
  unfold incN
  rw [added, sane.index_eq]
  exact packed_add bound

theorem Sane.get_setAsAllCounted (sane : m.Sane log) (i : Nat) : (m.setAsAllCounted i).Sane log ∧
    ∀ j, (m.setAsAllCounted i).get j = if j = i then m.counterMask else m.get j := by
  have filled : m.data (m.index i) ||| m.counterMask <<< m.bitOffset i =
      m.data (i / 2 ^ (6 - log)) |||
        (2 ^ 2 ^ log - 1) <<< (i % 2 ^ (6 - log) * 2 ^ log) := by
    rw [sane.index_eq, sane.bitOffset_eq, sane.mask]
  have sane' : (m.setAsAllCounted i).Sane log := by
    refine { sane with words := ?_ }
    intro w
    change Function.update m.data (m.index i) _ w < 2 ^ 64
    rw [filled, Function.update_apply]
    split_ifs
    · exact or_field_lt (sane.inside i) (sane.words _)
    · exact sane.words w
  refine ⟨sane', ?_⟩
  intro j
  rw [sane'.get_eq, sane.get_eq j, sane.mask]
  unfold setAsAllCounted
  rw [filled, sane.index_eq]
  exact packed_fill

theorem mem_range : i ∈ m.range first last ↔ first ≤ i ∧ i ≤ last ∧ i < m.numCounters := by
  unfold range
  rw [List.mem_range'_1]
  omega

/-- A loop of increments over different counters below the mask. -/
theorem Sane.get_foldl_inc (sane : m.Sane log) {order : List Nat} (nodup : order.Nodup)
    (room : ∀ i ∈ order, m.get i + 1 ≤ m.counterMask) :
    (order.foldl inc m).Sane log ∧
      ∀ j, (order.foldl inc m).get j = m.get j + if j ∈ order then 1 else 0 := by
  induction order generalizing m with
  | nil => exact ⟨sane, fun j => by simp⟩
  | cons i rest ih =>
    obtain ⟨fresh, nodup⟩ := List.nodup_cons.mp nodup
    obtain ⟨sane', get⟩ := sane.get_incN (room i List.mem_cons_self)
    have mask : (m.inc i).counterMask = m.counterMask := rfl
    have room' : ∀ j ∈ rest, (m.inc i).get j + 1 ≤ (m.inc i).counterMask := by
      intro j member
      have different : j ≠ i := by
        rintro rfl
        exact fresh member
      unfold inc
      rw [get, if_neg different]
      exact room j (List.mem_cons_of_mem _ member)
    have ⟨last, total⟩ := ih (m := m.inc i) sane' nodup room'
    refine ⟨last, ?_⟩
    intro j
    rw [List.foldl_cons, total]
    unfold inc
    rw [get]
    by_cases same : j = i
    · subst same
      simp [fresh]
    · simp [same]

theorem Sane.get_foldl_setAsAllCounted (sane : m.Sane log) (order : List Nat) :
    (order.foldl setAsAllCounted m).Sane log ∧ ∀ j,
      (order.foldl setAsAllCounted m).get j = if j ∈ order then m.counterMask else m.get j := by
  induction order generalizing m with
  | nil => exact ⟨sane, fun j => by simp⟩
  | cons i rest ih =>
    obtain ⟨sane', get⟩ := sane.get_setAsAllCounted i
    obtain ⟨last, total⟩ := ih sane'
    refine ⟨last, ?_⟩
    intro j
    have mask : (m.setAsAllCounted i).counterMask = m.counterMask := rfl
    rw [List.foldl_cons, total, mask, get]
    by_cases same : j = i
    · simp [same]
    · simp [same]

theorem Sane.get_incRange (sane : m.Sane log)
    (room : ∀ i, first ≤ i → i ≤ last → i < m.numCounters → m.get i + 1 ≤ m.counterMask) :
    (m.incRange first last).Sane log ∧ ∀ j, (m.incRange first last).get j =
      m.get j + if first ≤ j ∧ j ≤ last ∧ j < m.numCounters then 1 else 0 := by
  have inside : ∀ i ∈ m.range first last, m.get i + 1 ≤ m.counterMask := by
    intro i member
    obtain ⟨above, below, counter⟩ := mem_range.mp member
    exact room i above below counter
  have nodup : (m.range first last).Nodup := List.nodup_range'
  obtain ⟨sane', get⟩ := Sane.get_foldl_inc sane nodup inside
  refine ⟨sane', ?_⟩
  intro j
  unfold incRange
  rw [get]
  simp only [mem_range]

theorem Sane.get_setAsAllCountedRange (sane : m.Sane log) (first last : Nat) :
    (m.setAsAllCountedRange first last).Sane log ∧
      ∀ j, (m.setAsAllCountedRange first last).get j =
        if first ≤ j ∧ j ≤ last ∧ j < m.numCounters then m.counterMask else m.get j := by
  obtain ⟨sane', get⟩ := sane.get_foldl_setAsAllCounted (m.range first last)
  refine ⟨sane', ?_⟩
  intro j
  unfold setAsAllCountedRange
  rw [get]
  simp only [mem_range]

theorem foldl_numCounters {f : RegionPageMap → Nat → RegionPageMap}
    (keeps : ∀ m i, (f m i).numCounters = m.numCounters ∧ (f m i).counterMask = m.counterMask)
    (order : List Nat) (m : RegionPageMap) :
    (order.foldl f m).numCounters = m.numCounters ∧
      (order.foldl f m).counterMask = m.counterMask := by
  induction order generalizing m with
  | nil => exact ⟨rfl, rfl⟩
  | cons i rest ih =>
    obtain ⟨counters, mask⟩ := ih (f m i)
    exact ⟨counters.trans (keeps m i).1, mask.trans (keeps m i).2⟩

theorem getLog2_two_pow (k : Nat) : getLog2 (2 ^ k) = k := Nat.log2_two_pow

/-- The number of bits is rounded up to a power of two, of no more than a word has. -/
theorem roundUpPowerOfTwo_eq {size k : Nat} (positive : 0 < size) (bound : size ≤ 2 ^ k) :
    ∃ log ≤ k, roundUpPowerOfTwo size = 2 ^ log ∧ size ≤ 2 ^ log := by
  unfold roundUpPowerOfTwo
  split_ifs with power
  · obtain ⟨log, rfl⟩ := isPowerOfTwo_iff.mp power
    exact ⟨log, (Nat.pow_le_pow_iff_right (by decide)).mp bound, rfl, le_rfl⟩
  · refine ⟨getMostSignificantSetBitIndex size + 1, ?_, rfl, Nat.lt_log2_self.le⟩
    have different : size ≠ 2 ^ k := by
      rintro rfl
      exact power (isPowerOfTwo_iff.mpr ⟨k, rfl⟩)
    have less : Nat.log2 size < k := (Nat.log2_lt (by omega)).mpr (by omega)
    exact less

/-- Words of `2 ^ k` bits hold this many counters of `2 ^ log` bits. -/
theorem packingRatio_eq {k log : Nat} (small : log ≤ k) : 2 ^ k >>> log = 2 ^ (k - log) := by
  have split : 2 ^ k = 2 ^ (k - log) * 2 ^ log := by
    rw [← Nat.pow_add, Nat.sub_add_cancel small]
  rw [Nat.shiftRight_eq_div_pow, split, Nat.mul_div_cancel _ (Nat.two_pow_pos log)]

/-- The mask keeps the lowest `bits` bits. -/
theorem counterMask_eq {w bits : Nat} (fits : bits ≤ w) :
    (2 ^ w - 1) >>> (w - bits) = 2 ^ bits - 1 := by
  apply Nat.eq_of_testBit_eq
  intro i
  rw [Nat.testBit_shiftRight, Nat.testBit_two_pow_sub_one, Nat.testBit_two_pow_sub_one]
  congr 1
  rw [eq_iff_iff]
  omega

/-- `reset` makes counters that hold `maxValue`, all of them 0. -/
theorem reset_sane (countersPerRegion : Nat) {maxValue : Nat} (positive : 0 < maxValue)
    (bound : maxValue < 2 ^ 64) :
    (∃ log, (reset countersPerRegion maxValue).Sane log) ∧
      maxValue ≤ (reset countersPerRegion maxValue).counterMask ∧
      (reset countersPerRegion maxValue).numCounters = countersPerRegion ∧
      ∀ i, (reset countersPerRegion maxValue).get i = 0 := by
  have few : getMostSignificantSetBitIndex maxValue + 1 ≤ 64 :=
    (Nat.log2_lt (by omega)).mpr bound
  obtain ⟨log, small, rounded, above⟩ :=
    roundUpPowerOfTwo_eq (k := 6) (Nat.succ_pos _) few
  have ratio : maxCounterBits >>> log = 2 ^ (6 - log) := packingRatio_eq small
  have most : 2 ^ log ≤ 64 := Nat.pow_le_pow_right (by decide) small
  have mask : (2 ^ 64 - 1) >>> (maxCounterBits - 2 ^ log) = 2 ^ 2 ^ log - 1 := counterMask_eq most
  have sane : (reset countersPerRegion maxValue).Sane log := by
    unfold reset
    dsimp only
    constructor
    · exact small
    · rw [rounded, getLog2_two_pow]
    · rw [rounded, mask]
    · rw [rounded, getLog2_two_pow, ratio, getLog2_two_pow]
    · rw [rounded, getLog2_two_pow, ratio]
    · exact fun w => Nat.two_pow_pos 64
  refine ⟨⟨log, sane⟩, ?_, rfl, ?_⟩
  · have less : maxValue < 2 ^ 2 ^ log :=
      Nat.lt_log2_self.trans_le (Nat.pow_le_pow_right (by decide) above)
    rw [sane.mask]
    omega
  · intro i
    rw [sane.get_eq]
    unfold packed field reset
    rw [Nat.zero_div, Nat.zero_mod]

end RegionPageMap

end Scudo.Primary
