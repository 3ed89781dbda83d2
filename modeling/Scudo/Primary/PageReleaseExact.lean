import Scudo.Primary.PageMarking
import Scudo.Primary.PageWalk

/-!
Page release of a whole region is exact: from a free list it releases the pages of which every block
is in the list, as maximal ranges.
-/

namespace Scudo.Primary
open Scudo.Lib
open Scudo.Lib.Tiling

/-- The block with this number is in the free list. -/
def InFreeList (blockSize base : Nat) (decompactPtr : Nat → Nat) (freeList : List TransferBatch)
    (i : Nat) : Prop :=
  ∃ p ∈ freeList.flatMap (·.batch), decompactPtr p = base + i * blockSize

/-- The free list has different blocks of a region of `n` blocks. -/
structure FreeBlocks (blockSize n base : Nat) (decompactPtr : Nat → Nat)
    (freeList : List TransferBatch) : Prop where
  block : ∀ p ∈ freeList.flatMap (·.batch), ∃ i < n, decompactPtr p = base + i * blockSize
  nodup : ((freeList.flatMap (·.batch)).map decompactPtr).Nodup

theorem FreeBlocks.lt {blockSize n base i : Nat} {decompactPtr : Nat → Nat}
    {freeList : List TransferBatch} (free : FreeBlocks blockSize n base decompactPtr freeList)
    (positive : 0 < blockSize) (listed : InFreeList blockSize base decompactPtr freeList i) :
    i < n := by
  obtain ⟨p, member, same⟩ := listed
  obtain ⟨j, less, block⟩ := free.block p member
  rw [same] at block
  have number : i = j := Nat.eq_of_mul_eq_mul_right positive (Nat.add_left_cancel block)
  rwa [number]

/-- The free blocks by number. -/
theorem FreeBlocks.numbers {blockSize n base : Nat} {decompactPtr : Nat → Nat}
    {freeList : List TransferBatch} (free : FreeBlocks blockSize n base decompactPtr freeList)
    (positive : 0 < blockSize) : ∃ order : List Nat, order.Nodup ∧
      (freeList.flatMap (·.batch)).map (fun p => decompactPtr p - base) =
        order.map (· * blockSize) ∧
      (∀ i ∈ order, i < n) ∧
      ∀ i, i ∈ order ↔ InFreeList blockSize base decompactPtr freeList i := by
  have number : ∀ i, (base + i * blockSize - base) / blockSize = i := by
    intro i
    rw [Nat.add_sub_cancel_left, Nat.mul_div_cancel _ positive]
  refine ⟨(freeList.flatMap (·.batch)).map fun p => (decompactPtr p - base) / blockSize, ?_, ?_, ?_,
    ?_⟩
  · have addresses := free.nodup.map_on (f := fun address => (address - base) / blockSize) ?_
    · rwa [List.map_map] at addresses
    · intro x first y second same
      obtain ⟨p, member, rfl⟩ := List.mem_map.mp first
      obtain ⟨q, other, rfl⟩ := List.mem_map.mp second
      obtain ⟨i, _, atFirst⟩ := free.block p member
      obtain ⟨j, _, atSecond⟩ := free.block q other
      rw [atFirst, atSecond, number, number] at same
      rw [atFirst, atSecond, same]
  · rw [List.map_map]
    apply List.map_congr_left
    intro p member
    obtain ⟨i, _, block⟩ := free.block p member
    rw [Function.comp_apply, block, number, Nat.add_sub_cancel_left]
  · intro i member
    obtain ⟨p, inList, rfl⟩ := List.mem_map.mp member
    obtain ⟨i, less, block⟩ := free.block p inList
    rwa [block, number]
  · intro i
    rw [List.mem_map]
    constructor
    · rintro ⟨p, member, rfl⟩
      obtain ⟨i, _, block⟩ := free.block p member
      refine ⟨p, member, ?_⟩
      rw [block, number]
    · rintro ⟨p, member, block⟩
      refine ⟨p, member, ?_⟩
      rw [block, number]

/-- The block has bytes in the page. -/
def Overlaps (page : PageSize) (blockSize i j : Nat) : Prop :=
  i * blockSize < (j + 1) * page.bytes ∧ j * page.bytes < (i + 1) * blockSize

namespace PageReleaseContext

variable {page : PageSize} {blockSize n : Nat}

/-- A context for all pages of a region has a counter for each of them. -/
theorem new_pagesCount (fits : n * blockSize + blockSize + page.bytes ≤ 2 ^ 64) :
    (new page blockSize (n * blockSize) 0).pagesCount = n * blockSize ⌈/⌉ page.bytes := by
  have most := page.atMost
  unfold new
  dsimp only
  rw [roundUp_eq page.power (by omega) (by omega), roundUpSlow_eq, shiftRight_pageSizeLog,
    Nat.mul_div_cancel _ page.pos]

theorem new_releasePageOffset : (new page blockSize (n * blockSize) 0).releasePageOffset = 0 :=
  Nat.zero_shiftRight _

theorem new_covers (positive : 0 < blockSize)
    (fits : n * blockSize + blockSize + page.bytes ≤ 2 ^ 64) :
    (new page blockSize (n * blockSize) 0).Covers n (n * blockSize) := by
  refine ⟨⟨positive, rfl, rfl⟩, le_rfl, fits, ?_⟩
  intro x inside
  change x / page.bytes - _ < _
  rw [new_pagesCount fits, new_releasePageOffset, Nat.sub_zero, lt_ceilDiv page.pos]
  exact (Nat.div_mul_le_self x page.bytes).trans_lt inside

theorem new_starts (fits : n * blockSize + blockSize + page.bytes ≤ 2 ^ 64) :
    (new page blockSize (n * blockSize) 0).Starts n := by
  intro k inside
  rw [new_pagesCount fits, lt_ceilDiv page.pos] at inside
  rw [new_releasePageOffset, Nat.zero_add]
  exact inside

/-- What is released when the free list has been marked. -/
def releaseFreeList (page : PageSize) (blockSize regionSize base : Nat) (decompactPtr : Nat → Nat)
    (freeList : List TransferBatch) : List (Nat × Nat) :=
  let ctx := new page blockSize regionSize 0
  ctx.releaseFreeMemoryToOS
    (ctx.markFreeBlocksInRegion ctx.pageMap freeList decompactPtr base regionSize true)

/-- The ranges that are released are the maximal runs of pages of which every block is in the free
list. -/
theorem releaseFreeList_runs (positive : 0 < blockSize) (some_ : 0 < n)
    (fits : n * blockSize + blockSize + page.bytes ≤ 2 ^ 64) {base : Nat}
    {decompactPtr : Nat → Nat} {freeList : List TransferBatch}
    (free : FreeBlocks blockSize n base decompactPtr freeList) :
    ∃ runs, releaseFreeList page blockSize (n * blockSize) base decompactPtr freeList =
        runs.map (FreePagesRangeTracker.inBytes page) ∧
      MaximalRuns (fun j => ∀ i < n, Overlaps page blockSize i j →
        InFreeList blockSize base decompactPtr freeList i) (n * blockSize ⌈/⌉ page.bytes) runs := by
  obtain ⟨order, nodup, map, less, mem⟩ := free.numbers positive
  have covers : (new page blockSize (n * blockSize) 0).Covers n (n * blockSize) :=
    new_covers positive fits
  have offset : (new page blockSize (n * blockSize) 0).releasePageOffset = 0 :=
    new_releasePageOffset
  have inside : ∀ i ∈ order, (new page blockSize (n * blockSize) 0).releasePageOffset ≤
      i * blockSize / page.bytes ∧ i * blockSize < n * blockSize := by
    intro i member
    rw [offset]
    exact ⟨Nat.zero_le _, Nat.mul_lt_mul_of_pos_right (less i member) positive⟩
  have lastBlock : true = true → n * blockSize = n * blockSize ∧ 0 < n ∧
      (new page blockSize (n * blockSize) 0).releasePageOffset ≤
        n * blockSize / page.bytes := fun _ => ⟨rfl, some_, offset.le.trans (Nat.zero_le _)⟩
  obtain ⟨after, counted, exact_⟩ := markFreeBlocksInRegion_adds covers (new_starts fits)
    covers.sized.counted_pageMap nodup map inside lastBlock fun _ _ i _ => Finset.notMem_empty i
  -- the blocks after the end are marked, so that what is left are those of the region
  have complete : ∀ j < n * blockSize ⌈/⌉ page.bytes, (∀ i < n, Overlaps page blockSize i j →
      InFreeList blockSize base decompactPtr freeList i) ↔
        decide ((new page blockSize (n * blockSize) 0).Complete after j) = true := by
    intro j counter
    have here := exact_ j (by rw [new_pagesCount fits]; exact counter)
    rw [decide_eq_true_eq]
    unfold Complete
    rw [offset, Nat.zero_add] at here ⊢
    rw [Finset.ext_iff]
    simp only [here, Finset.notMem_empty, false_or, true_and]
    constructor
    · intro all i
      constructor
      · exact And.right
      · intro touches
        refine ⟨?_, touches⟩
        rcases Nat.lt_or_ge i n with inRegion | after_
        · exact Or.inl ((mem i).mpr (all i inRegion ((mem_touching positive).mp touches)))
        · exact Or.inr after_
    · intro same i inRegion overlaps
      have listed := ((same i).mpr ((mem_touching positive).mpr overlaps)).1
      exact (mem i).mp (listed.resolve_right (Nat.not_le.mpr inRegion))
  obtain ⟨runs, ranges, maximal⟩ := FreePagesRangeTracker.ranges_maximal page
    (fun j => decide ((new page blockSize (n * blockSize) 0).Complete after j))
    (n * blockSize ⌈/⌉ page.bytes)
  have exactly := maximal.congr complete
  have released : releaseFreeList page blockSize (n * blockSize) base decompactPtr freeList =
      runs.map (FreePagesRangeTracker.inBytes page) := by
    have walk := releaseFreeMemoryToOS_eq covers.sized counted
    rw [new_pagesCount fits] at walk
    exact walk.trans ranges
  exact ⟨runs, released, exactly⟩

/-- A page is released if and only if every block with bytes in it is in the free list. -/
theorem mem_releaseFreeList (positive : 0 < blockSize) (some_ : 0 < n)
    (fits : n * blockSize + blockSize + page.bytes ≤ 2 ^ 64) {base : Nat}
    {decompactPtr : Nat → Nat} {freeList : List TransferBatch}
    (free : FreeBlocks blockSize n base decompactPtr freeList) (j : Nat) :
    (∃ range ∈ releaseFreeList page blockSize (n * blockSize) base decompactPtr freeList,
        range.1 ≤ j * page.bytes ∧ (j + 1) * page.bytes ≤ range.2) ↔
      j * page.bytes < n * blockSize ∧ ∀ i < n, Overlaps page blockSize i j →
        InFreeList blockSize base decompactPtr freeList i := by
  have pages := page.pos
  obtain ⟨runs, released, exactly⟩ := releaseFreeList_runs positive some_ fits free
  rw [released, ← lt_ceilDiv pages, ← exactly.mem_iff]
  constructor
  · rintro ⟨range, member, above, below⟩
    obtain ⟨run, inRuns, rfl⟩ := List.mem_map.mp member
    exact ⟨run, inRuns, Nat.le_of_mul_le_mul_right above pages,
      Nat.le_of_mul_le_mul_right below pages⟩
  · rintro ⟨run, inRuns, above, below⟩
    exact ⟨_, List.mem_map_of_mem inRuns, Nat.mul_le_mul_right _ above,
      Nat.mul_le_mul_right _ below⟩

/-- The pages that are released are those of which every block is in the free list, and the ranges
are maximal ones of these. -/
theorem page_release_exact (page : PageSize) (blockSize n base : Nat) (decompactPtr : Nat → Nat)
    (freeList : List TransferBatch) (positive : 0 < blockSize) (some_ : 0 < n)
    (fits : n * blockSize + blockSize + page.bytes ≤ 2 ^ 64)
    (free : FreeBlocks blockSize n base decompactPtr freeList) :
    (∀ j, (∃ range ∈ releaseFreeList page blockSize (n * blockSize) base decompactPtr freeList,
        range.1 ≤ j * page.bytes ∧ (j + 1) * page.bytes ≤ range.2) ↔
      j * page.bytes < n * blockSize ∧ ∀ i < n, Overlaps page blockSize i j →
        InFreeList blockSize base decompactPtr freeList i) ∧
    ∃ runs, releaseFreeList page blockSize (n * blockSize) base decompactPtr freeList =
        runs.map (FreePagesRangeTracker.inBytes page) ∧
      MaximalRuns (fun j => ∀ i < n, Overlaps page blockSize i j →
        InFreeList blockSize base decompactPtr freeList i) (n * blockSize ⌈/⌉ page.bytes) runs := by
  exact ⟨mem_releaseFreeList positive some_ fits free, releaseFreeList_runs positive some_ fits free⟩

section Slow

/-- All but the third one of five blocks, on four pages of which the second one has bytes of three
blocks. -/
def fourOfFive : List TransferBatch := [⟨[65536, 73216]⟩, ⟨[68096, 75776]⟩]

/-- Two ranges are released, and every block with bytes in the third page is free. -/
theorem page_release_exact_slow :
    releaseFreeList PageSize.small 2560 (5 * 2560) 65536 id fourOfFive =
        [(0, 4096), (8192, 16384)] ∧
      ∀ i < 5, Overlaps PageSize.small 2560 i 2 → InFreeList 2560 65536 id fourOfFive i := by
  have free : FreeBlocks 2560 5 65536 id fourOfFive := ⟨by decide, by decide⟩
  have released : releaseFreeList PageSize.small 2560 (5 * 2560) 65536 id fourOfFive =
      [(0, 4096), (8192, 16384)] := by
    decide +kernel
  have third := (page_release_exact PageSize.small 2560 5 65536 id fourOfFive (by decide)
    (by decide) (by decide) free).1 2
  have inRange : ∃ range ∈ releaseFreeList PageSize.small 2560 (5 * 2560) 65536 id fourOfFive,
      range.1 ≤ 2 * PageSize.small.bytes ∧ (2 + 1) * PageSize.small.bytes ≤ range.2 := by
    rw [released]
    exact ⟨(8192, 16384), by decide, by decide, by decide⟩
  exact ⟨released, (third.mp inRange).2⟩

end Slow

end PageReleaseContext

end Scudo.Primary
