import Scudo.Primary.PageMarking
import Scudo.Primary.PageWalk

/-!
Page release is sound: a page that is released has no byte of a block that is not recorded in one of
the groups that were extracted.
-/

namespace Scudo.Primary
open Scudo.Lib
open Scudo.Lib.Tiling

namespace RegionInfo

variable {c : PrimaryConfig} (region : RegionInfo c)

/-- The number of blocks, and where a group starts in the region. -/
def blocksCount : Nat := region.allocatedUser / region.blockSize

def groupStart (c : PrimaryConfig) (g : BatchGroup) : Nat :=
  g.compactPtrGroupBase <<< c.compactPtrScale

/-- The end of a group, or of the blocks of the region. -/
def usedEnd (g : BatchGroup) : Nat := min (groupStart c g + c.groupSize) region.allocatedUser

/-- The block with this number is recorded in the group. -/
def Records (g : BatchGroup) (i : Nat) : Prop :=
  ∃ p ∈ g.blocks, p <<< c.compactPtrScale = i * region.blockSize

/-- A group records different blocks of the region, those that start in the group. -/
structure Exact (g : BatchGroup) : Prop where
  filled : g.Filled
  some : g.blocks ≠ []
  nodup : g.blocks.Nodup
  own : ∀ p ∈ g.blocks, c.compactPtrGroup p = g.compactPtrGroupBase
  block : ∀ p ∈ g.blocks, ∃ i < region.blocksCount, p <<< c.compactPtrScale = i * region.blockSize

/-- The last block of the region starts in the group. -/
def Ends (g : BatchGroup) : Prop :=
  groupStart c g ≤ (region.blocksCount - 1) * region.blockSize ∧
    (region.blocksCount - 1) * region.blockSize < groupStart c g + c.groupSize

/-- What marking a group may mark: its blocks, and those after the end of the region. -/
def Free (g : BatchGroup) (i : Nat) : Prop :=
  i < region.blocksCount ∧ region.Records g i ∨ region.blocksCount ≤ i ∧ region.Ends g

theorem allocatedUser_eq : region.allocatedUser = region.blocksCount * region.blockSize :=
  (Nat.div_mul_cancel region.whole).symm

variable {region} {g : BatchGroup}

namespace Exact

/-- The group of a compact pointer, without the mask. -/
theorem own_eq (exact_ : region.Exact g) {p : Nat} (member : p ∈ g.blocks) :
    p / 2 ^ c.groupScale * 2 ^ c.groupScale = g.compactPtrGroupBase := by
  obtain ⟨i, less, block⟩ := exact_.block p member
  have fits := region.fits
  have positive := region.positive
  have step : i * region.blockSize ≤ region.blocksCount * region.blockSize :=
    Nat.mul_le_mul_right _ less.le
  have total := allocatedUser_eq region
  have own := exact_.own p member
  have scale := Nat.two_pow_pos c.compactPtrScale
  rw [Nat.shiftLeft_eq] at block
  have bound : p < 2 ^ 64 := by
    have le : p ≤ p * 2 ^ c.compactPtrScale := Nat.le_mul_of_pos_right p scale
    omega
  have small : c.groupScale ≤ 64 := by
    by_contra large
    have huge : 2 ^ 64 < 2 ^ c.groupScale := Nat.pow_lt_pow_right (by decide) (by omega)
    have le : 2 ^ c.groupScale ≤ c.groupSize := by
      rw [c.groupSize_eq]
      exact Nat.le_mul_of_pos_right _ scale
    omega
  unfold PrimaryConfig.compactPtrGroup at own
  rwa [and_wnot small bound] at own

/-- The blocks of a group start in it. -/
theorem bounds (exact_ : region.Exact g) {p : Nat} (member : p ∈ g.blocks) :
    groupStart c g ≤ p <<< c.compactPtrScale ∧
      p <<< c.compactPtrScale < groupStart c g + c.groupSize := by
  have own := exact_.own_eq member
  have lower := Nat.div_mul_le_self p (2 ^ c.groupScale)
  have upper := Nat.lt_div_mul_add (Nat.two_pow_pos c.groupScale) (a := p)
  rw [own] at lower upper
  unfold groupStart
  rw [Nat.shiftLeft_eq, Nat.shiftLeft_eq, c.groupSize_eq, ← Nat.add_mul]
  exact ⟨Nat.mul_le_mul_right _ lower,
    Nat.mul_lt_mul_of_pos_right upper (Nat.two_pow_pos c.compactPtrScale)⟩

/-- Groups start at multiples of their size, and so of pages. -/
theorem start_dvd (exact_ : region.Exact g) : c.groupSize ∣ groupStart c g := by
  obtain ⟨p, member⟩ := List.exists_mem_of_ne_nil _ exact_.some
  have own := exact_.own_eq member
  refine ⟨p / 2 ^ c.groupScale, ?_⟩
  unfold groupStart
  rw [Nat.shiftLeft_eq, ← own, c.groupSize_eq]
  ring

/-- A group starts in the region. -/
theorem start_lt (exact_ : region.Exact g) : groupStart c g < region.allocatedUser := by
  obtain ⟨p, member⟩ := List.exists_mem_of_ne_nil _ exact_.some
  obtain ⟨lower, _⟩ := exact_.bounds member
  obtain ⟨i, less, block⟩ := exact_.block p member
  have step : (i + 1) * region.blockSize ≤ region.blocksCount * region.blockSize :=
    Nat.mul_le_mul_right _ less
  have positive := region.positive
  rw [allocatedUser_eq]
  rw [Nat.add_mul, Nat.one_mul] at step
  omega

theorem usedEnd_eq (exact_ : region.Exact g) : region.batchGroupUsedEnd g =
    region.regionBeg + region.usedEnd g := by
  have less := exact_.start_lt
  unfold usedEnd batchGroupUsedEnd allocatedGroupSize batchGroupEnd allocatedUserEnd
  change region.regionBeg + groupStart c g + (if region.regionBeg + groupStart c g + c.groupSize ≤
    region.allocatedUser + region.regionBeg then c.groupSize
    else region.allocatedUser + region.regionBeg - (region.regionBeg + groupStart c g)) = _
  split_ifs with within
  · omega
  · omega

/-- Where the last page of the region is in the group, its last block is as well. -/
theorem ends (exact_ : region.Exact g)
    (reaches : region.allocatedUser ≤ groupStart c g + c.groupSize) : region.Ends g := by
  obtain ⟨p, member⟩ := List.exists_mem_of_ne_nil _ exact_.some
  obtain ⟨lower, _⟩ := exact_.bounds member
  obtain ⟨i, less, block⟩ := exact_.block p member
  have step : i * region.blockSize ≤ (region.blocksCount - 1) * region.blockSize :=
    Nat.mul_le_mul_right _ (by omega)
  have last : (region.blocksCount - 1) * region.blockSize + region.blockSize =
      region.allocatedUser := by
    rw [← Nat.succ_mul, Nat.succ_eq_add_one, Nat.sub_add_cancel (by omega), allocatedUser_eq]
  have positive := region.positive
  constructor
  · omega
  · omega

/-- The recorded blocks by number. -/
theorem numbers (exact_ : region.Exact g) : ∃ order : List Nat, order.Nodup ∧
    g.blocks.map (fun p => c.decompactPtrInternal region.compactPtrBase p - region.regionBeg) =
      order.map (· * region.blockSize) ∧
    ∀ i, i ∈ order ↔ region.Records g i := by
  have positive := region.positive
  have scale := Nat.two_pow_pos c.compactPtrScale
  refine ⟨g.blocks.map fun p => p <<< c.compactPtrScale / region.blockSize, ?_, ?_, ?_⟩
  · apply List.Nodup.map_on _ exact_.nodup
    intro p member q other same
    obtain ⟨i, _, first⟩ := exact_.block p member
    obtain ⟨j, _, second⟩ := exact_.block q other
    rw [first, second, Nat.mul_div_cancel _ positive, Nat.mul_div_cancel _ positive] at same
    rw [same, ← second, Nat.shiftLeft_eq, Nat.shiftLeft_eq] at first
    exact Nat.eq_of_mul_eq_mul_right scale first
  · rw [List.map_map]
    apply List.map_congr_left
    intro p member
    obtain ⟨i, _, block⟩ := exact_.block p member
    unfold PrimaryConfig.decompactPtrInternal compactPtrBase
    rw [Nat.add_sub_cancel_left, Function.comp_apply, block, Nat.mul_div_cancel _ positive]
  · intro i
    rw [List.mem_map]
    constructor
    · rintro ⟨p, member, rfl⟩
      obtain ⟨i, _, block⟩ := exact_.block p member
      refine ⟨p, member, ?_⟩
      rw [block, Nat.mul_div_cancel _ positive]
    · rintro ⟨p, member, block⟩
      refine ⟨p, member, ?_⟩
      rw [block, Nat.mul_div_cancel _ positive]

theorem below (exact_ : region.Exact g) {i : Nat} (recorded : region.Records g i) :
    groupStart c g ≤ i * region.blockSize ∧ i * region.blockSize < region.usedEnd g ∧
      i < region.blocksCount := by
  obtain ⟨p, member, block⟩ := recorded
  obtain ⟨lower, upper⟩ := exact_.bounds member
  obtain ⟨k, less, same⟩ := exact_.block p member
  have number : i = k := Nat.eq_of_mul_eq_mul_right region.positive (block.symm.trans same)
  have step : i * region.blockSize < region.blocksCount * region.blockSize :=
    Nat.mul_lt_mul_of_pos_right (number ▸ less) region.positive
  rw [block] at lower upper
  refine ⟨lower, ?_, number ▸ less⟩
  unfold usedEnd
  rw [allocatedUser_eq]
  exact Nat.lt_min.mpr ⟨upper, step⟩

/-- As many blocks start in a group as `maxContainedBlocks` says, or fewer. -/
theorem contained_le (exact_ : region.Exact g) :
    region.usedEnd g ⌈/⌉ region.blockSize - groupStart c g ⌈/⌉ region.blockSize ≤
      region.maxContainedBlocks g := by
  have used := exact_.usedEnd_eq
  have size : region.allocatedGroupSize g = region.usedEnd g - groupStart c g := by
    have base : region.batchGroupUsedEnd g =
        region.regionBeg + groupStart c g + region.allocatedGroupSize g := rfl
    omega
  unfold maxContainedBlocks
  dsimp only
  rw [used, Nat.add_sub_cancel_left, size]
  split_ifs with aligned
  · exact ceilDiv_sub_le_of_dvd region.positive (Nat.dvd_of_mod_eq_zero aligned)
  · exact ceilDiv_sub_le region.positive

/-- A group with as many blocks as start in it records all of them. -/
theorem all (exact_ : region.Exact g) (full : g.numBlocks = region.maxContainedBlocks g) {i : Nat}
    (above : groupStart c g ≤ i * region.blockSize)
    (less : i * region.blockSize < region.usedEnd g) : region.Records g i := by
  obtain ⟨order, nodup, map, mem⟩ := exact_.numbers
  have length : order.length = region.maxContainedBlocks g := by
    calc order.length = (order.map (· * region.blockSize)).length := (List.length_map _).symm
      _ = g.blocks.length := by rw [← map, List.length_map]
      _ = region.maxContainedBlocks g := by rw [← exact_.filled.numBlocks_eq, full]
  have subset : order.toFinset ⊆ Finset.Ico (groupStart c g ⌈/⌉ region.blockSize)
      (region.usedEnd g ⌈/⌉ region.blockSize) := by
    intro k member
    rw [List.mem_toFinset, mem] at member
    obtain ⟨lower, upper, _⟩ := exact_.below member
    rw [Finset.mem_Ico, ceilDiv_le region.positive, lt_ceilDiv region.positive]
    exact ⟨lower, upper⟩
  have same := Finset.eq_of_subset_of_card_le subset (by
    rw [Nat.card_Ico, List.toFinset_card_of_nodup nodup, length]
    exact exact_.contained_le)
  rw [← mem, ← List.mem_toFinset, same, Finset.mem_Ico, ceilDiv_le region.positive,
    lt_ceilDiv region.positive]
  exact ⟨above, less⟩

end Exact

/-- What is free in a group starts in it, or takes the place of the last block that does. -/
theorem Free.bounds (exact_ : region.Exact g) {i : Nat} (free : region.Free g i) :
    groupStart c g ≤ min i (region.blocksCount - 1) * region.blockSize ∧
      min i (region.blocksCount - 1) * region.blockSize < groupStart c g + c.groupSize := by
  rcases free with ⟨less, recorded⟩ | ⟨after, ends⟩
  · obtain ⟨lower, upper, _⟩ := exact_.below recorded
    rw [Nat.min_eq_left (by omega)]
    exact ⟨lower, upper.trans_le (Nat.min_le_left _ _)⟩
  · rw [Nat.min_eq_right (by omega)]
    exact ends

/-- Different groups have no block in common. -/
theorem Free.separate {h : BatchGroup} (first : region.Exact h) (second : region.Exact g)
    (less : h.compactPtrGroupBase < g.compactPtrGroupBase) {i : Nat} (free : region.Free h i) :
    ¬ region.Free g i := by
  intro other
  obtain ⟨a, before⟩ := first.start_dvd
  obtain ⟨b, after⟩ := second.start_dvd
  obtain ⟨_, upper⟩ := free.bounds first
  obtain ⟨lower, _⟩ := other.bounds second
  have starts : groupStart c h < groupStart c g := by
    unfold groupStart
    rw [Nat.shiftLeft_eq, Nat.shiftLeft_eq]
    exact Nat.mul_lt_mul_of_pos_right less (Nat.two_pow_pos _)
  have order : a < b := by
    rw [before, after] at starts
    exact Nat.lt_of_mul_lt_mul_left starts
  have step : c.groupSize * (a + 1) ≤ c.groupSize * b := Nat.mul_le_mul_left _ order
  rw [Nat.mul_add, Nat.mul_one] at step
  omega

end RegionInfo

end Scudo.Primary
