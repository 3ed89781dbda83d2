import Scudo.Release.RegionPageMap

/-!
One counter at a time. When the sizes did not overflow, every counter of every region has a field
of its own in a word of the buffer, and a write to it changes this field alone.
-/

namespace Scudo.Release
open Scudo.Lib
open Scudo.Secondary (WordSize)

def wordSizeLog : WordSize → Nat
  | .w32 => 5
  | .w64 => 6

theorem bits_eq (word : WordSize) : word.bits = 2 ^ wordSizeLog word := by
  cases word
  · rfl
  · rfl

namespace RegionPageMap

/-- Counters of `2 ^ log` bits fill the words. -/
structure Shaped (m : RegionPageMap) (log : Nat) : Prop where
  small : log ≤ wordSizeLog m.word
  bits : m.counterSizeBitsLog = log
  mask : m.counterMask = 2 ^ 2 ^ log - 1
  ratio : m.packingRatioLog = wordSizeLog m.word - log
  offset : m.bitOffsetMask = 2 ^ m.packingRatioLog - 1

/-- The words of all regions are in the buffer, one after the other. -/
structure Roomy (m : RegionPageMap) (log : Nat) : Prop extends Shaped m log where
  covers : m.numCounters ≤ m.sizePerRegion * 2 ^ m.packingRatioLog
  elements : m.bufferNumElements = m.sizePerRegion * m.regions
  fits : m.bufferNumElements < 2 ^ m.word.bits

structure Sane (m : RegionPageMap) (log : Nat) : Prop extends Roomy m log where
  words : ∀ k < m.bufferNumElements, m.data k < 2 ^ m.word.bits

/-- A counter of the map. -/
def Has (m : RegionPageMap) (region i : Nat) : Prop := region < m.regions ∧ i < m.numCounters

instance (m : RegionPageMap) (region i : Nat) : Decidable (m.Has region i) := by
  unfold Has
  infer_instance

/-- The number of a counter, when those that fill up the last word of a region count as well. -/
def number (m : RegionPageMap) (region i : Nat) : Nat :=
  i + region * (m.sizePerRegion * 2 ^ m.packingRatioLog)

variable {m : RegionPageMap} {log region i n other j : Nat}

section Places

theorem number_mod (m : RegionPageMap) (region i : Nat) :
    m.number region i % 2 ^ m.packingRatioLog = i % 2 ^ m.packingRatioLog := by
  unfold number
  rw [← Nat.mul_assoc, Nat.add_mul_mod_self_right]

theorem number_div :
    m.number region i / 2 ^ m.packingRatioLog =
      region * m.sizePerRegion + i / 2 ^ m.packingRatioLog := by
  unfold number
  rw [← Nat.mul_assoc, Nat.add_mul_div_right _ _ (Nat.two_pow_pos _), Nat.add_comm]

/-- Different counters have different numbers. -/
theorem Roomy.number_inj (roomy : m.Roomy log) (here : m.Has region i) (there : m.Has other j) :
    m.number other j = m.number region i ↔ other = region ∧ j = i := by
  have fitsI : i < m.sizePerRegion * 2 ^ m.packingRatioLog := here.2.trans_le roomy.covers
  have fitsJ : j < m.sizePerRegion * 2 ^ m.packingRatioLog := there.2.trans_le roomy.covers
  unfold number
  constructor
  · intro same
    have regions := congrArg (· / (m.sizePerRegion * 2 ^ m.packingRatioLog)) same
    have places := congrArg (· % (m.sizePerRegion * 2 ^ m.packingRatioLog)) same
    simp only [Nat.add_mul_mod_self_right, Nat.mod_eq_of_lt fitsI, Nat.mod_eq_of_lt fitsJ]
      at places
    have positive : 0 < m.sizePerRegion * 2 ^ m.packingRatioLog := by omega
    simp only [Nat.add_mul_div_right _ _ positive, Nat.div_eq_of_lt fitsI,
      Nat.div_eq_of_lt fitsJ, Nat.zero_add] at regions
    exact ⟨regions, places⟩
  · intro same
    rw [same.1, same.2]

theorem Roomy.div_lt (roomy : m.Roomy log) (here : m.Has region i) :
    m.number region i / 2 ^ m.packingRatioLog < m.bufferNumElements := by
  have place : i / 2 ^ m.packingRatioLog < m.sizePerRegion :=
    (Nat.div_lt_iff_lt_mul (Nat.two_pow_pos _)).mpr (here.2.trans_le roomy.covers)
  rw [number_div, roomy.elements]
  calc region * m.sizePerRegion + i / 2 ^ m.packingRatioLog
      < region * m.sizePerRegion + m.sizePerRegion := Nat.add_lt_add_left place _
    _ = (region + 1) * m.sizePerRegion := by ring
    _ ≤ m.regions * m.sizePerRegion := Nat.mul_le_mul_right _ here.1
    _ = m.sizePerRegion * m.regions := Nat.mul_comm _ _

theorem Roomy.index_eq (roomy : m.Roomy log) (here : m.Has region i) :
    m.index region i = m.number region i / 2 ^ m.packingRatioLog := by
  have bound := (roomy.div_lt here).trans roomy.fits
  rw [number_div] at bound ⊢
  unfold index
  rw [wrap_eq ((Nat.le_add_right _ _).trans_lt bound), Nat.shiftRight_eq_div_pow, wadd_eq bound]

/-- Every word that is used is in the buffer. -/
theorem Roomy.index_lt (roomy : m.Roomy log) (here : m.Has region i) :
    m.index region i < m.bufferNumElements := by
  rw [roomy.index_eq here]
  exact roomy.div_lt here

/-- Every counter is inside its word. -/
theorem Shaped.inside (shaped : m.Shaped log) (i : Nat) :
    i % 2 ^ m.packingRatioLog * 2 ^ log + 2 ^ log ≤ m.word.bits := by
  have small := Nat.mod_lt i (Nat.two_pow_pos m.packingRatioLog)
  calc i % 2 ^ m.packingRatioLog * 2 ^ log + 2 ^ log
      = (i % 2 ^ m.packingRatioLog + 1) * 2 ^ log := by ring
    _ ≤ 2 ^ m.packingRatioLog * 2 ^ log := Nat.mul_le_mul_right _ small
    _ = m.word.bits := by
        rw [bits_eq, shaped.ratio, ← Nat.pow_add, Nat.sub_add_cancel shaped.small]

theorem Shaped.bitOffset_eq (shaped : m.Shaped log) (i : Nat) :
    m.bitOffset i = i % 2 ^ m.packingRatioLog * 2 ^ log := by
  have inside := shaped.inside i
  have width := Nat.lt_two_pow_self (n := m.word.bits)
  unfold bitOffset
  rw [shaped.offset, shaped.bits, Nat.and_two_pow_sub_one_eq_mod, Nat.shiftLeft_eq]
  exact wrap_eq ((Nat.le_of_add_right_le inside).trans_lt width)

/-- The mask of a counter stays inside its word. -/
theorem Shaped.mask_shift (shaped : m.Shaped log) (i : Nat) :
    wrap m.word.bits (m.counterMask <<< m.bitOffset i) = m.counterMask <<< m.bitOffset i := by
  rw [shaped.mask, shaped.bitOffset_eq]
  apply wrap_eq
  have alone := @or_field_lt (2 ^ log) _ 0 _ (shaped.inside i) (Nat.two_pow_pos _)
  rwa [Nat.zero_or] at alone

/-- The map reads as one long packed array. -/
theorem Roomy.get_eq (roomy : m.Roomy log) (here : m.Has region i) :
    m.get region i =
      packed (2 ^ log) (2 ^ m.packingRatioLog) m.data (m.number region i) := by
  unfold get packed field
  rw [roomy.index_eq here, roomy.bitOffset_eq, number_mod, roomy.mask, Nat.shiftRight_eq_div_pow,
    Nat.and_two_pow_sub_one_eq_mod]

end Places

section Writes

variable {value : Nat}

theorem Sane.store (sane : m.Sane log) (bound : value < 2 ^ m.word.bits) :
    (m.store region i value).Sane log := by
  refine { sane with words := ?_ }
  intro k inBuffer
  change Function.update m.data (m.index region i) value k < _
  rw [Function.update_apply]
  split_ifs
  · exact bound
  · exact sane.words k inBuffer

/-- Words other than the one that is written keep their value. -/
theorem store_data {k : Nat} (different : k ≠ m.index region i) :
    (m.store region i value).data k = m.data k := Function.update_of_ne different _ _

/-- An increment that keeps the counter below the mask adds to this counter alone. -/
theorem Sane.get_incN (sane : m.Sane log) (here : m.Has region i)
    (room : m.get region i + n ≤ m.counterMask) :
    (m.incN region i n).Sane log ∧ ∀ other j, m.Has other j →
      (m.incN region i n).get other j =
        if other = region ∧ j = i then m.get region i + n else m.get other j := by
  have inBuffer := sane.words _ (sane.index_lt here)
  have bound := room
  rw [sane.get_eq here, sane.mask, Nat.le_sub_one_iff_lt (Nat.two_pow_pos _)] at bound
  have total : m.data (m.index region i) + n * 2 ^ m.bitOffset i < 2 ^ m.word.bits := by
    rw [sane.bitOffset_eq]
    refine add_field_lt ?_ (sane.inside i) inBuffer
    rw [sane.index_eq here, ← number_mod m region]
    exact bound
  have added : wadd m.word.bits (m.data (m.index region i))
      (wrap m.word.bits (n <<< m.bitOffset i)) =
        m.data (m.index region i) + n * 2 ^ m.bitOffset i := by
    rw [Nat.shiftLeft_eq, wrap_eq (by omega), wadd_eq total]
  have sane' : (m.incN region i n).Sane log := by
    unfold incN
    rw [added]
    exact sane.store total
  refine ⟨sane', ?_⟩
  intro other j there
  rw [sane'.get_eq there, sane.get_eq here, sane.get_eq there]
  unfold incN
  rw [added, sane.bitOffset_eq, sane.index_eq here, ← number_mod m region]
  simp only [← sane.number_inj here there]
  unfold RegionPageMap.store
  rw [sane.index_eq here]
  exact packed_add bound

theorem Sane.get_setAsAllCounted (sane : m.Sane log) (here : m.Has region i) :
    (m.setAsAllCounted region i).Sane log ∧ ∀ other j, m.Has other j →
      (m.setAsAllCounted region i).get other j =
        if other = region ∧ j = i then m.counterMask else m.get other j := by
  have inBuffer := sane.words _ (sane.index_lt here)
  have unwrapped : wrap m.word.bits (m.counterMask <<< m.bitOffset i) =
      (2 ^ 2 ^ log - 1) <<< (i % 2 ^ m.packingRatioLog * 2 ^ log) := by
    rw [sane.mask_shift, sane.mask, sane.bitOffset_eq]
  have sane' : (m.setAsAllCounted region i).Sane log := by
    unfold setAsAllCounted
    rw [unwrapped]
    exact sane.store (or_field_lt (sane.inside i) inBuffer)
  refine ⟨sane', ?_⟩
  intro other j there
  rw [sane'.get_eq there, sane.get_eq there, sane.mask]
  unfold setAsAllCounted
  rw [unwrapped, sane.index_eq here, ← number_mod m region]
  simp only [← sane.number_inj here there]
  unfold RegionPageMap.store
  rw [sane.index_eq here]
  exact packed_fill

end Writes

end RegionPageMap

end Scudo.Release
