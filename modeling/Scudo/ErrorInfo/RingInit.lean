import Scudo.ErrorInfo.RingReports
import Scudo.Primary.PageMap
import Scudo.StackDepot

/-!
What `initRingBufferMaybe` makes of the flag: where there is a ring buffer, the handler of another process
accepts the depot, and finds as many entries as were asked for.
-/

namespace Scudo.ErrorInfo
open Scudo.Lib.Checked
open Scudo.Primary (roundUpPowerOfTwo)

/-- The sizes of the ring buffer and of its depot. -/
structure RingSizes where
  ringBufferElements : Nat
  tabSize : Nat
  ringSize : Nat
  stackDepotSize : Nat
  deriving DecidableEq

def kStacksPerRingBufferEntry : Nat := 2
def kFramesPerStack : Nat := 16
def kMaxU32Pow2 : Nat := 2 ^ 31

def ringBufferSizeInBytes (ringBufferElements : Nat) : Nat :=
  ringBufferBytes + ringBufferElements * ringEntryBytes

def initRingBufferMaybe (ringBufferSize : Int) : Option RingSizes :=
  if ringBufferSize ≤ 0 then none
  else
    let allocationRingBufferSize := ringBufferSize.toNat
    if kMaxU32Pow2 / kStacksPerRingBufferEntry < allocationRingBufferSize then none
    else
      let tabSize := wrap 32 (roundUpPowerOfTwo (kStacksPerRingBufferEntry * allocationRingBufferSize))
      if (2 ^ 32 - 1) / kFramesPerStack < tabSize then none
      else
        let ringSize := wrap 32 (tabSize * kFramesPerStack)
        some ⟨allocationRingBufferSize, tabSize, ringSize,
          StackDepot.headerBytes + 8 * ringSize + 4 * tabSize⟩

/-- The depot has the words that `init` stores to its header, whatever was inserted since. -/
structure StackDepot.Initialized (depot : StackDepot) (z : RingSizes) : Prop where
  size : depot.buffer.size = z.stackDepotSize
  ringSize : depot.ringSize = .ok z.ringSize
  ringMask : depot.ringMask = .ok (z.ringSize - 1)
  tabMask : depot.tabMask = .ok (z.tabSize - 1)

variable {z : RingSizes} {flag : Int}

/-- The sizes are powers of two that no computation of them has wrapped. -/
theorem initRingBufferMaybe_eq : initRingBufferMaybe flag = some z ↔ 0 < flag ∧ flag ≤ 2 ^ 26 ∧
    z.ringBufferElements = flag.toNat ∧ z.ringSize = 16 * z.tabSize ∧
      z.stackDepotSize = StackDepot.headerBytes + 8 * z.ringSize + 4 * z.tabSize ∧
      z.tabSize = roundUpPowerOfTwo (2 * flag.toNat) := by
  unfold initRingBufferMaybe kMaxU32Pow2 kStacksPerRingBufferEntry kFramesPerStack
  by_cases positive : flag ≤ 0
  · rw [if_pos positive]
    exact ⟨nofun, fun holds => absurd holds.1 (by omega)⟩
  · rw [if_neg positive]
    dsimp only
    by_cases large : 2 ^ 31 / 2 < flag.toNat
    · rw [if_pos large]
      refine ⟨nofun, fun holds => ?_⟩
      have most := holds.2.1
      omega
    · obtain ⟨log, small, rounded, above⟩ :=
        @Primary.RegionPageMap.roundUpPowerOfTwo_eq (2 * flag.toNat) 31 (by omega) (by omega)
      have bound : 2 ^ log ≤ 2 ^ 31 := Nat.pow_le_pow_right (by decide) small
      have whole : wrap 32 (roundUpPowerOfTwo (2 * flag.toNat)) = 2 ^ log := by
        rw [rounded, wrap_eq (by omega)]
      rw [if_neg large, whole, rounded]
      by_cases many : (2 ^ 32 - 1) / 16 < 2 ^ log
      · rw [if_pos many]
        refine ⟨nofun, fun holds => ?_⟩
        obtain ⟨log', small', rounded', -⟩ :=
          @Primary.RegionPageMap.roundUpPowerOfTwo_eq (2 * flag.toNat) 27 (by omega) (by omega)
        have bound' : 2 ^ log' ≤ 2 ^ 27 := Nat.pow_le_pow_right (by decide) small'
        omega
      · have few : log ≤ 27 := by
          by_contra more
          have least : 2 ^ 28 ≤ 2 ^ log := Nat.pow_le_pow_right (by decide) (Nat.lt_of_not_le more)
          omega
        have bound' : 2 ^ log ≤ 2 ^ 27 := Nat.pow_le_pow_right (by decide) few
        rw [if_neg many, wrap_eq (by omega)]
        constructor
        · rintro ⟨⟩
          exact ⟨by omega, by omega, rfl, Nat.mul_comm _ _, rfl, rfl⟩
        · rintro ⟨-, -, elements, ring, depot, tab⟩
          obtain ⟨_, _, _, _⟩ := z
          dsimp only at elements ring depot tab
          rw [elements, depot, ring, tab, Nat.mul_comm 16]

/-- The same with the logarithms, which are those that `StackDepot` is modelled with. -/
theorem initRingBufferMaybe_sizes (made : initRingBufferMaybe flag = some z) :
    ∃ sizes : Scudo.StackDepot.Sizes, sizes.ringSize = z.ringSize ∧ sizes.tabMask + 1 = z.tabSize ∧
      z.ringSize ≤ 2 ^ 31 ∧ 2 ≤ z.tabSize ∧ z.tabSize ≤ 2 ^ 27 ∧ isPowerOfTwo z.tabSize = true ∧
      isPowerOfTwo z.ringSize = true := by
  obtain ⟨positive, most, -, ring, -, tab⟩ := initRingBufferMaybe_eq.mp made
  obtain ⟨log, small, rounded, above⟩ :=
    @Primary.RegionPageMap.roundUpPowerOfTwo_eq (2 * flag.toNat) 27 (by omega) (by omega)
  have bound : 2 ^ log ≤ 2 ^ 27 := Nat.pow_le_pow_right (by decide) small
  have some_ : 0 < 2 ^ log := Nat.two_pow_pos log
  rw [rounded] at tab
  have four : z.ringSize = 2 ^ (log + 4) := by
    rw [ring, tab, Nat.pow_add, Nat.mul_comm]
  refine ⟨⟨log + 4, log, by omega, by omega⟩, four.symm, ?_, by omega, by omega, by omega, ?_, ?_⟩
  · change 2 ^ log - 1 + 1 = z.tabSize
    omega
  · exact isPowerOfTwo_iff.mpr ⟨log, tab⟩
  · exact isPowerOfTwo_iff.mpr ⟨log + 4, four⟩

/-- The depot passes its check with exactly the size that the process gives. -/
theorem StackDepot.Initialized.isValid_eq {depot : StackDepot} (initialized : depot.Initialized z)
    (made : initRingBufferMaybe flag = some z) : depot.isValid depot.buffer.size = .ok true := by
  obtain ⟨-, -, -, -, depotSize, -⟩ := initRingBufferMaybe_eq.mp made
  obtain ⟨-, -, -, ringMost, tabLeast, tabMost, tabPower, ringPower⟩ := initRingBufferMaybe_sizes made
  have ringPositive := isPowerOfTwo_pos ringPower
  have ringWhole : wadd 32 (z.ringSize - 1) 1 = z.ringSize := by
    rw [wadd_eq (by omega)]
    omega
  have tabWhole : wadd 32 (z.tabSize - 1) 1 = z.tabSize := by
    rw [wadd_eq (by omega)]
    omega
  have exactly : z.stackDepotSize - StackDepot.headerBytes - 4 * z.tabSize = 8 * z.ringSize := by omega
  unfold StackDepot.isValid
  rw [initialized.ringSize, ok_bind, ringPower, if_neg (by decide), initialized.ringMask, ok_bind, ringWhole,
    if_neg (not_not.mpr rfl), initialized.tabMask, ok_bind, if_neg (by omega), tabWhole]
  dsimp only
  rw [tabPower, if_neg (by decide), initialized.size, wrap_eq (by omega), wrap_eq (by omega), if_neg (by omega),
    if_neg (by omega), exactly, if_neg (Nat.lt_irrefl _), beq_self_eq_true]
  rfl

/-- For every flag: there is a ring buffer for the sizes up to `2 ^ 26` and for no others, and where there
is one, no size has wrapped, and the handler finds its number of entries and a depot that is valid. -/
theorem ring_buffer_accepted (flag : Int) :
    (initRingBufferMaybe flag ≠ none ↔ 0 < flag ∧ flag ≤ 2 ^ 26) ∧
      ∀ z, initRingBufferMaybe flag = some z → z.ringBufferElements = flag.toNat ∧
        (z.tabSize = roundUpPowerOfTwo (2 * flag.toNat) ∧ z.tabSize < 2 ^ 32 ∧
          z.ringSize = 16 * z.tabSize ∧ z.ringSize < 2 ^ 32) ∧
        ringBufferElementsFromBytes (ringBufferSizeInBytes z.ringBufferElements) = z.ringBufferElements ∧
        (∃ sizes : Scudo.StackDepot.Sizes, sizes.ringSize = z.ringSize ∧ sizes.tabMask + 1 = z.tabSize) ∧
        ∀ depot : StackDepot, depot.Initialized z → depot.isValid depot.buffer.size = .ok true ∧
          depot.Fits z.ringSize (z.tabSize - 1) := by
  constructor
  · rw [Option.ne_none_iff_exists']
    constructor
    · rintro ⟨z, made⟩
      obtain ⟨positive, most, -⟩ := initRingBufferMaybe_eq.mp made
      exact ⟨positive, most⟩
    · rintro ⟨positive, most⟩
      have made := fun z => (@initRingBufferMaybe_eq z flag).mpr
      exact ⟨⟨flag.toNat, roundUpPowerOfTwo (2 * flag.toNat), 16 * roundUpPowerOfTwo (2 * flag.toNat),
        StackDepot.headerBytes + 8 * (16 * roundUpPowerOfTwo (2 * flag.toNat)) +
          4 * roundUpPowerOfTwo (2 * flag.toNat)⟩, made _ ⟨positive, most, rfl, rfl, rfl, rfl⟩⟩
  · intro z made
    obtain ⟨-, -, elements, frames, depotSize, rounded⟩ := initRingBufferMaybe_eq.mp made
    obtain ⟨sizes, ring, tab, ringMost, tabLeast, tabMost, -, ringPower⟩ := initRingBufferMaybe_sizes made
    refine ⟨elements, ⟨rounded, by omega, frames, by omega⟩, ?_, ⟨sizes, ring, tab⟩,
      fun depot initialized => ?_⟩
    · unfold ringBufferElementsFromBytes ringBufferSizeInBytes ringBufferBytes ringEntryBytes
      rw [if_neg (by omega)]
      omega
    · refine ⟨initialized.isValid_eq made, initialized.ringSize, initialized.ringMask, initialized.tabMask,
        isPowerOfTwo_pos ringPower, ?_⟩
      rw [initialized.size, depotSize]
      omega

/-- The default of the flag. -/
theorem ring_buffer_accepted_default : initRingBufferMaybe 32768 = some ⟨32768, 65536, 1048576, 8650776⟩ ∧
    ∀ depot : StackDepot, depot.Initialized ⟨32768, 65536, 1048576, 8650776⟩ →
      depot.isValid depot.buffer.size = .ok true ∧ depot.Fits 1048576 65535 := by
  have made : initRingBufferMaybe 32768 = some ⟨32768, 65536, 1048576, 8650776⟩ := by decide
  exact ⟨made, ((ring_buffer_accepted 32768).2 _ made).2.2.2.2⟩

end Scudo.ErrorInfo
