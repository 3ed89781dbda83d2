import Scudo.Common

/-!
What the 64-bit primary allocator keeps about the free blocks of a region: transfer batches of
compact pointers, and batch groups of transfer batches.
-/

namespace Scudo.Primary

/-- The parameters of the allocator. Groups are whole numbers of pages. -/
structure PrimaryConfig where
  page : PageSize
  compactPtrScale : Nat
  groupSizeLog : Nat
  scale_le : compactPtrScale ≤ groupSizeLog
  page_le : page.bytes ≤ 2 ^ groupSizeLog

namespace PrimaryConfig

def groupScale (c : PrimaryConfig) : Nat := c.groupSizeLog - c.compactPtrScale

def groupSize (c : PrimaryConfig) : Nat := 2 ^ c.groupSizeLog

def decompactPtrInternal (c : PrimaryConfig) (base compactPtr : Nat) : Nat :=
  base + compactPtr <<< c.compactPtrScale

def compactPtrGroup (c : PrimaryConfig) (compactPtr : Nat) : Nat :=
  compactPtr &&& wnot 64 (2 ^ c.groupScale - 1)

def decompactGroupBase (c : PrimaryConfig) (base compactPtrGroupBase : Nat) : Nat :=
  base + compactPtrGroupBase <<< c.compactPtrScale

theorem page_dvd (c : PrimaryConfig) : c.page.bytes ∣ c.groupSize :=
  isPowerOfTwo_dvd c.page.power (isPowerOfTwo_iff.mpr ⟨_, rfl⟩) c.page_le

theorem groupSize_pos (c : PrimaryConfig) : 0 < c.groupSize := Nat.two_pow_pos _

theorem groupSize_eq (c : PrimaryConfig) :
    c.groupSize = 2 ^ c.groupScale * 2 ^ c.compactPtrScale := by
  unfold groupSize groupScale
  rw [← Nat.pow_add, Nat.sub_add_cancel c.scale_le]

/-- A small compact pointer is of the first group. -/
theorem compactPtrGroup_zero (c : PrimaryConfig) {compactPtr : Nat}
    (small : compactPtr < 2 ^ c.groupScale) : c.compactPtrGroup compactPtr = 0 := by
  unfold compactPtrGroup
  by_cases fits : c.groupScale ≤ 64
  · have bound := lt_of_lt_of_le small (Nat.pow_le_pow_right (by decide) fits)
    rw [and_wnot fits bound, Nat.div_eq_of_lt small, Nat.zero_mul]
  · have more : 2 ^ 64 ≤ 2 ^ c.groupScale := Nat.pow_le_pow_right (by decide) (by omega)
    have none_ : wnot 64 (2 ^ c.groupScale - 1) = 0 := by
      unfold wnot
      omega
    rw [none_, Nat.and_zero]

end PrimaryConfig

/-- What page release reads of a region, whose blocks lie in the address space. -/
structure RegionInfo (c : PrimaryConfig) where
  regionBeg : Nat
  blockSize : Nat
  allocatedUser : Nat
  positive : 0 < blockSize
  whole : blockSize ∣ allocatedUser
  fits : regionBeg + allocatedUser + blockSize + c.groupSize + c.page.bytes ≤ 2 ^ 64

/-- `Batch[0..Count)`. -/
structure TransferBatch where
  batch : List Nat
  deriving DecidableEq, Repr

def TransferBatch.getCount (b : TransferBatch) : Nat := b.batch.length

/-- `Batches` starts with the front one. -/
structure BatchGroup where
  compactPtrGroupBase : Nat
  batches : List TransferBatch
  maxCachedPerBatch : Nat
  deriving DecidableEq, Repr

namespace BatchGroup

/-- The number of blocks, where only the first batch may not be full. -/
def numBlocks (g : BatchGroup) : Nat :=
  (g.batches.length - 1) * g.maxCachedPerBatch + (g.batches.head?.map TransferBatch.getCount).getD 0

/-- The recorded blocks. -/
def blocks (g : BatchGroup) : List Nat := g.batches.flatMap TransferBatch.batch

/-- Only the first batch may not be full. -/
def Filled (g : BatchGroup) : Prop :=
  g.batches ≠ [] ∧ ∀ b ∈ g.batches.tail, b.getCount = g.maxCachedPerBatch

/-- Full batches hold as many blocks as their number says. -/
theorem length_full {batches : List TransferBatch} {count : Nat}
    (full : ∀ b ∈ batches, b.getCount = count) :
    (batches.flatMap TransferBatch.batch).length = batches.length * count := by
  induction batches with
  | nil => simp
  | cons b rest ih =>
    have first : b.batch.length = count := full b List.mem_cons_self
    rw [List.flatMap_cons, List.length_append, first,
      ih fun b member => full b (List.mem_cons_of_mem _ member), List.length_cons, Nat.add_mul,
      Nat.one_mul, Nat.add_comm]

theorem Filled.numBlocks_eq {g : BatchGroup} (filled : g.Filled) : g.numBlocks = g.blocks.length := by
  obtain ⟨some_, full⟩ := filled
  unfold numBlocks blocks
  cases batches : g.batches with
  | nil => exact absurd batches some_
  | cons front rest =>
    rw [batches, List.tail_cons] at full
    rw [List.flatMap_cons, List.length_append, length_full full]
    simp [TransferBatch.getCount, Nat.add_comm]

end BatchGroup

end Scudo.Primary
