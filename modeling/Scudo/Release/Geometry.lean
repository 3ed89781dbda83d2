import Scudo.Release.PackedCounters

/-!
What `reset` computes. The sizes are computed without a check for overflow, and the buffer has a
word for every counter exactly when none of them overflowed.
-/

namespace Scudo.Release
open Scudo.Lib
open Scudo.Secondary (WordSize)
open Scudo.Primary (getMostSignificantSetBitIndex roundUpPowerOfTwo getLog2)
open Scudo.Primary.RegionPageMap (roundUpPowerOfTwo_eq packingRatio_eq counterMask_eq
  getLog2_two_pow)

namespace RegionPageMap

/-- The counters in a word: its bits over the bits of a counter, a power of two that is enough for
`maxValue`. -/
def packingRatio (word : WordSize) (maxValue : Nat) : Nat :=
  word.bits / roundUpPowerOfTwo (getMostSignificantSetBitIndex maxValue + 1)

/-- Neither rounding up to whole words nor the size for all regions overflows. -/
def Fits (word : WordSize) (numberOfRegion countersPerRegion maxValue : Nat) : Prop :=
  let rounded := countersPerRegion + packingRatio word maxValue - 1
  rounded < 2 ^ word.bits ∧ rounded / packingRatio word maxValue * numberOfRegion < 2 ^ word.bits

instance (word : WordSize) (numberOfRegion countersPerRegion maxValue : Nat) :
    Decidable (Fits word numberOfRegion countersPerRegion maxValue) := by
  unfold Fits
  infer_instance

variable {word : WordSize} {numberOfRegion countersPerRegion maxValue : Nat} {buffer : Nat → Nat}

theorem wordSizeLog_lt (word : WordSize) : wordSizeLog word < word.bits := by
  rw [bits_eq]
  exact Nat.lt_two_pow_self

/-- The sizes as they are computed, with every overflow. -/
structure Measured (m : RegionPageMap) (log : Nat) : Prop extends Shaped m log where
  size : m.sizePerRegion =
    wrap m.word.bits (m.numCounters + 2 ^ m.packingRatioLog - 1) / 2 ^ m.packingRatioLog
  elements : m.bufferNumElements = wrap m.word.bits (m.sizePerRegion * m.regions)

variable {m : RegionPageMap} {log : Nat}

theorem Shaped.narrow (shaped : m.Shaped log) : m.packingRatioLog < m.word.bits := by
  rw [shaped.ratio]
  exact (Nat.sub_le _ _).trans_lt (wordSizeLog_lt m.word)

/-- The shifts and masks belong together. -/
theorem reset_shaped (positive : 0 < maxValue) (bound : maxValue < 2 ^ word.bits) :
    ∃ log, (reset word numberOfRegion countersPerRegion maxValue buffer).Shaped log ∧
      roundUpPowerOfTwo (getMostSignificantSetBitIndex maxValue + 1) = 2 ^ log ∧
      getMostSignificantSetBitIndex maxValue < 2 ^ log := by
  have few : getMostSignificantSetBitIndex maxValue + 1 ≤ 2 ^ wordSizeLog word := by
    rw [← bits_eq]
    exact (Nat.log2_lt (by omega)).mpr bound
  obtain ⟨log, small, rounded, above⟩ := roundUpPowerOfTwo_eq (Nat.succ_pos _) few
  have ratio : word.bits >>> log = 2 ^ (wordSizeLog word - log) := by
    rw [bits_eq]
    exact packingRatio_eq small
  have most : 2 ^ log ≤ word.bits := by
    rw [bits_eq]
    exact Nat.pow_le_pow_right (by decide) small
  refine ⟨log, ?_, rounded, above⟩
  unfold reset
  dsimp only
  constructor
  · exact small
  · rw [rounded, getLog2_two_pow]
  · rw [rounded]
    exact counterMask_eq most
  · rw [rounded, getLog2_two_pow, ratio, getLog2_two_pow]
  · rw [rounded, getLog2_two_pow, ratio, getLog2_two_pow]

/-- `reset` rounds the counters of a region up to whole words. -/
theorem reset_measured
    (shaped : (reset word numberOfRegion countersPerRegion maxValue buffer).Shaped log) :
    (reset word numberOfRegion countersPerRegion maxValue buffer).Measured log := by
  refine { shaped with size := ?_, elements := rfl }
  generalize same : reset word numberOfRegion countersPerRegion maxValue buffer = m at shaped
  have size : m.sizePerRegion =
      roundUp m.word.bits m.numCounters (wrap m.word.bits (1 <<< m.packingRatioLog)) >>>
        m.packingRatioLog := by
    rw [← same]
    rfl
  have boundary : wrap m.word.bits (1 <<< m.packingRatioLog) = 2 ^ m.packingRatioLog := by
    rw [Nat.one_shiftLeft]
    exact wrap_eq ((Nat.pow_lt_pow_iff_right (by decide)).mpr shaped.narrow)
  rw [size, boundary, Nat.shiftRight_eq_div_pow]
  unfold roundUp
  rw [and_wnot shaped.narrow.le (wrap_lt _ _), Nat.mul_div_cancel _ (Nat.two_pow_pos _)]

/-- A counter holds `maxValue`. -/
theorem reset_counterMask (positive : 0 < maxValue) (bound : maxValue < 2 ^ word.bits) :
    maxValue ≤ (reset word numberOfRegion countersPerRegion maxValue buffer).counterMask := by
  obtain ⟨log, shaped, -, above⟩ :=
    @reset_shaped word numberOfRegion countersPerRegion maxValue buffer positive bound
  have less : maxValue < 2 ^ 2 ^ log :=
    Nat.lt_log2_self.trans_le (Nat.pow_le_pow_right (by decide) above)
  rw [shaped.mask]
  omega

theorem reset_packingRatio (positive : 0 < maxValue) (bound : maxValue < 2 ^ word.bits) :
    packingRatio word maxValue =
      2 ^ (reset word numberOfRegion countersPerRegion maxValue buffer).packingRatioLog := by
  obtain ⟨log, shaped, rounded, -⟩ :=
    @reset_shaped word numberOfRegion countersPerRegion maxValue buffer positive bound
  rw [shaped.ratio, ← packingRatio_eq shaped.small, ← bits_eq, Nat.shiftRight_eq_div_pow,
    ← rounded]
  rfl

section Room

/-- Without an overflow there is a word for every counter. -/
theorem Measured.roomy (measured : m.Measured log)
    (rounded : m.numCounters + 2 ^ m.packingRatioLog - 1 < 2 ^ m.word.bits)
    (total : (m.numCounters + 2 ^ m.packingRatioLog - 1) / 2 ^ m.packingRatioLog * m.regions <
      2 ^ m.word.bits) : m.Roomy log := by
  have size := measured.size
  rw [wrap_eq rounded] at size
  have elements : m.bufferNumElements = m.sizePerRegion * m.regions := by
    rw [measured.elements, size, wrap_eq total]
  have covers : m.numCounters ≤ m.sizePerRegion * 2 ^ m.packingRatioLog := by
    have parts := Nat.div_add_mod (m.numCounters + 2 ^ m.packingRatioLog - 1)
      (2 ^ m.packingRatioLog)
    have rest := Nat.mod_lt (m.numCounters + 2 ^ m.packingRatioLog - 1)
      (Nat.two_pow_pos m.packingRatioLog)
    rw [size, Nat.mul_comm]
    omega
  refine { measured.toShaped with covers := covers, elements := elements, fits := ?_ }
  rw [measured.elements]
  exact wrap_lt _ _

/-- When rounding up overflows, no word is left for a region. -/
theorem Measured.size_zero (measured : m.Measured log) (counters : m.numCounters < 2 ^ m.word.bits)
    (overflow : 2 ^ m.word.bits ≤ m.numCounters + 2 ^ m.packingRatioLog - 1) :
    m.sizePerRegion = 0 := by
  have cell := Nat.two_pow_pos m.packingRatioLog
  have less : 2 ^ m.packingRatioLog ≤ 2 ^ m.word.bits :=
    Nat.pow_le_pow_right (by decide) measured.narrow.le
  rw [measured.size]
  unfold wrap
  rw [Nat.mod_eq_sub_mod overflow, Nat.mod_eq_of_lt (by omega)]
  exact Nat.div_eq_of_lt (by omega)

/-- When the size for all regions overflows, the indices of the counters wrap, and one of them is
the largest number that a word holds. -/
theorem Measured.last_index (measured : m.Measured log)
    (rounded : m.numCounters + 2 ^ m.packingRatioLog - 1 < 2 ^ m.word.bits)
    (overflow : 2 ^ m.word.bits ≤ m.sizePerRegion * m.regions) :
    ∃ region i, m.Has region i ∧ m.index region i = 2 ^ m.word.bits - 1 := by
  have cell := Nat.two_pow_pos m.packingRatioLog
  have size := measured.size
  rw [wrap_eq rounded] at size
  have word := Nat.two_pow_pos m.word.bits
  have some_ : 0 < m.sizePerRegion := by
    by_contra none
    rw [Nat.eq_zero_of_not_pos none, Nat.zero_mul] at overflow
    omega
  have inner := Nat.mod_lt (2 ^ m.word.bits - 1) some_
  refine ⟨(2 ^ m.word.bits - 1) / m.sizePerRegion,
    (2 ^ m.word.bits - 1) % m.sizePerRegion * 2 ^ m.packingRatioLog, ⟨?_, ?_⟩, ?_⟩
  · rw [Nat.div_lt_iff_lt_mul some_, Nat.mul_comm]
    omega
  · have parts := Nat.div_mul_le_self (m.numCounters + 2 ^ m.packingRatioLog - 1)
      (2 ^ m.packingRatioLog)
    rw [← size] at parts
    have next : ((2 ^ m.word.bits - 1) % m.sizePerRegion + 1) * 2 ^ m.packingRatioLog ≤
        m.sizePerRegion * 2 ^ m.packingRatioLog := Nat.mul_le_mul_right _ inner
    rw [Nat.succ_mul] at next
    omega
  · unfold index wadd
    rw [wrap_add, Nat.shiftRight_eq_div_pow, Nat.mul_div_cancel _ cell, Nat.mul_comm,
      Nat.div_add_mod]
    exact wrap_eq (by omega)

/-- The buffer has a word for every counter exactly when no size overflowed. -/
theorem Measured.room_iff (measured : m.Measured log) (someRegions : 0 < m.regions)
    (someCounters : 0 < m.numCounters) (counters : m.numCounters < 2 ^ m.word.bits) :
    (∀ region i, m.Has region i → m.index region i < m.bufferNumElements) ↔
      m.numCounters + 2 ^ m.packingRatioLog - 1 < 2 ^ m.word.bits ∧
        (m.numCounters + 2 ^ m.packingRatioLog - 1) / 2 ^ m.packingRatioLog * m.regions <
          2 ^ m.word.bits := by
  constructor
  · intro inside
    have rounded : m.numCounters + 2 ^ m.packingRatioLog - 1 < 2 ^ m.word.bits := by
      by_contra overflow
      have first := inside 0 0 ⟨someRegions, someCounters⟩
      rw [measured.elements, measured.size_zero counters (by omega), Nat.zero_mul] at first
      exact absurd first (Nat.not_lt_zero _)
    refine ⟨rounded, ?_⟩
    rw [← wrap_eq rounded, ← measured.size]
    by_contra overflow
    obtain ⟨region, i, here, last⟩ := measured.last_index rounded (by omega)
    have below := inside region i here
    have elements := wrap_lt m.word.bits (m.sizePerRegion * m.regions)
    rw [last, measured.elements] at below
    omega
  · intro fits region i here
    exact (measured.roomy fits.1 fits.2).index_lt here

end Room

end RegionPageMap

end Scudo.Release
