import Scudo.Primary.PageReleaseExact

/-!
Marking a range of pages as a whole agrees with marking its blocks one by one: the same pages are
released, among whatever other groups have been marked, and the counters hold what they count.
-/

namespace Scudo.Primary
open Scudo.Lib
open Scudo.Lib.Tiling
open PageReleaseContext (Counted Adds Fresh)

/-- A region of blocks whose pages all have counters. -/
structure WholeRegion where
  page : PageSize
  blockSize : Nat
  blocksCount : Nat
  base : Nat
  decompactPtr : Nat → Nat
  positive : 0 < blockSize
  fits : blocksCount * blockSize + blockSize + page.bytes ≤ 2 ^ 64

/-- A group from `from_` to `to_` that is marked as a range, or by the blocks of its free list. -/
inductive GroupMarking where
  | range (from_ to_ : Nat)
  | blocks (from_ to_ : Nat) (freeList : List TransferBatch)

def GroupMarking.from_ : GroupMarking → Nat
  | range from_ _ => from_
  | blocks from_ _ _ => from_

def GroupMarking.to_ : GroupMarking → Nat
  | range _ to_ => to_
  | blocks _ to_ _ => to_

namespace WholeRegion

section Marking

variable (region : WholeRegion)

def regionSize : Nat := region.blocksCount * region.blockSize

def context : PageReleaseContext :=
  PageReleaseContext.new region.page region.blockSize region.regionSize 0

/-- The last block of the region begins between the two. -/
def LastBlockIn (from_ to_ : Nat) : Prop :=
  from_ ≤ (region.blocksCount - 1) * region.blockSize ∧
    (region.blocksCount - 1) * region.blockSize < to_

instance (from_ to_ : Nat) : Decidable (region.LastBlockIn from_ to_) :=
  inferInstanceAs (Decidable (_ ∧ _))

def markGroup (m : RegionPageMap) : GroupMarking → RegionPageMap
  | .range from_ to_ => region.context.markRangeAsAllCounted m (region.base + from_)
      (region.base + to_) region.base region.regionSize
  | .blocks from_ to_ freeList => region.context.markFreeBlocksInRegion m freeList
      region.decompactPtr region.base region.regionSize (decide (region.LastBlockIn from_ to_))

def markGroups (groups : List GroupMarking) : RegionPageMap :=
  groups.foldl region.markGroup region.context.pageMap

def InList (freeList : List TransferBatch) (i : Nat) : Prop :=
  InFreeList region.blockSize region.base region.decompactPtr freeList i

/-- A range ends with a page or with the region, and the blocks of a free list begin in the
group. -/
def Valid : GroupMarking → Prop
  | .range _ to_ => (region.page.bytes ∣ to_ ∨ to_ = region.regionSize) ∧ to_ ≤ region.regionSize
  | .blocks from_ to_ freeList =>
    FreeBlocks region.blockSize region.blocksCount region.base region.decompactPtr freeList ∧
      ∀ i < region.blocksCount, region.InList freeList i →
        from_ ≤ i * region.blockSize ∧ i * region.blockSize < to_

/-- The blocks of the group, and with the last block of the region those that its last page would
have after it. -/
def Marks : GroupMarking → Nat → Prop
  | .range from_ to_, i => (from_ ≤ i * region.blockSize ∧ i * region.blockSize < to_) ∨
      region.LastBlockIn from_ to_ ∧ region.blocksCount ≤ i
  | .blocks from_ to_ freeList, i =>
      region.InList freeList i ∨ region.LastBlockIn from_ to_ ∧ region.blocksCount ≤ i

/-- The counter of the page is the number of its blocks that have been marked, which the counter
can hold, or stands for all of them. -/
def CountsExactly (groups : List GroupMarking) (k : Nat) : Prop :=
  ∃ marked : Finset Nat, (∀ i, i ∈ marked ↔
      (∃ g ∈ groups, region.Marks g i) ∧ Overlaps region.page region.blockSize i k) ∧
    ((region.markGroups groups).get k = marked.card ∧
        marked.card ≤ (region.markGroups groups).counterMask ∨
      (region.markGroups groups).get k = (region.markGroups groups).counterMask ∧
        ∀ i, Overlaps region.page region.blockSize i k → i ∈ marked)

end Marking

variable {region : WholeRegion} {m : RegionPageMap} {marked : Nat → Finset Nat}
  {g h : GroupMarking} {i from_ to_ : Nat}

theorem covers (region : WholeRegion) :
    region.context.Covers region.blocksCount region.regionSize :=
  PageReleaseContext.new_covers region.positive region.fits

theorem starts (region : WholeRegion) : region.context.Starts region.blocksCount :=
  PageReleaseContext.new_starts region.fits

theorem offset_zero (region : WholeRegion) : region.context.releasePageOffset = 0 :=
  PageReleaseContext.new_releasePageOffset

/-- A range reaches the end of the region exactly with its last block. -/
theorem ranges_iff (some_ : 0 < region.blocksCount) (inside : to_ ≤ region.regionSize) :
    region.context.Ranges region.blocksCount from_ to_ i ↔ region.Marks (.range from_ to_) i := by
  have positive := region.positive
  have less : from_ ⌈/⌉ region.blockSize < region.blocksCount ↔
      from_ ≤ (region.blocksCount - 1) * region.blockSize := by
    rw [← ceilDiv_le positive]
    omega
  have most : to_ ⌈/⌉ region.blockSize ≤ region.blocksCount := (ceilDiv_le positive).mpr inside
  have last : to_ ⌈/⌉ region.blockSize = region.blocksCount ↔
      (region.blocksCount - 1) * region.blockSize < to_ := by
    rw [← lt_ceilDiv positive]
    omega
  change _ ∨ from_ ⌈/⌉ region.blockSize < region.blocksCount ∧
    to_ ⌈/⌉ region.blockSize = region.blocksCount ∧ _ ↔ _
  rw [less, last, ← and_assoc]
  rfl

/-- What a group marks begins in it, or takes the place of the last block that does. -/
theorem Marks.bounds (valid : region.Valid g) (marks : region.Marks g i) :
    g.from_ ≤ min i (region.blocksCount - 1) * region.blockSize ∧
      min i (region.blocksCount - 1) * region.blockSize < g.to_ := by
  have before : ∀ {from_ to_}, i < region.blocksCount →
      from_ ≤ i * region.blockSize ∧ i * region.blockSize < to_ →
        from_ ≤ min i (region.blocksCount - 1) * region.blockSize ∧
          min i (region.blocksCount - 1) * region.blockSize < to_ := by
    intro from_ to_ less inside
    rwa [Nat.min_eq_left (by omega)]
  have behind : ∀ {from_ to_}, region.LastBlockIn from_ to_ → region.blocksCount ≤ i →
      from_ ≤ min i (region.blocksCount - 1) * region.blockSize ∧
        min i (region.blocksCount - 1) * region.blockSize < to_ := by
    intro from_ to_ last after
    rw [Nat.min_eq_right (by omega)]
    exact last
  cases g with
  | range from_ to_ =>
    rcases marks with inside | ⟨last, after⟩
    · exact before (Nat.lt_of_mul_lt_mul_right (inside.2.trans_le valid.2)) inside
    · exact behind last after
  | blocks from_ to_ freeList =>
    rcases marks with listed | ⟨last, after⟩
    · have less := valid.1.lt region.positive listed
      exact before less (valid.2 i less listed)
    · exact behind last after

/-- Groups in order mark different blocks. -/
theorem Marks.apart (validFirst : region.Valid g) (validSecond : region.Valid h)
    (order : g.to_ ≤ h.from_) (first : region.Marks g i) : ¬region.Marks h i := by
  intro second
  have upper := (first.bounds validFirst).2
  have lower := (second.bounds validSecond).1
  omega

theorem markGroup_adds (some_ : 0 < region.blocksCount) (valid : region.Valid g)
    (counted : region.context.Counted m marked)
    (fresh : region.context.Fresh marked (region.Marks g)) :
    region.context.Adds (region.markGroup m g) marked (region.Marks g) := by
  have zero := region.offset_zero
  cases g with
  | range from_ to_ =>
    have same := fun i => @ranges_iff region i from_ to_ some_ valid.2
    have adds := PageReleaseContext.markRangeAsAllCounted_adds region.covers region.starts counted
      region.base valid.2 valid.1 (by rw [zero, Nat.zero_mul]; exact Nat.zero_le _)
      fun k counter i is => fresh k counter i ((same i).mp is)
    exact adds.of_iff fun i => (same i).symm
  | blocks from_ to_ freeList =>
    obtain ⟨order, nodup, map, less, mem⟩ := valid.1.numbers region.positive
    have same : ∀ i, region.Marks (.blocks from_ to_ freeList) i ↔ i ∈ order ∨
        decide (region.LastBlockIn from_ to_) = true ∧ region.blocksCount ≤ i := by
      intro i
      rw [mem, decide_eq_true_eq]
      rfl
    have inside : ∀ i ∈ order, region.context.releasePageOffset ≤
        i * region.blockSize / region.page.bytes ∧ i * region.blockSize < region.regionSize := by
      intro i member
      rw [zero]
      exact ⟨Nat.zero_le _, Nat.mul_lt_mul_of_pos_right (less i member) region.positive⟩
    have adds := PageReleaseContext.markFreeBlocksInRegion_adds region.covers region.starts counted
      nodup map inside (fun _ => ⟨rfl, some_, zero.le.trans (Nat.zero_le _)⟩)
      fun k counter i is => fresh k counter i ((same i).mpr is)
    exact adds.of_iff same

/-- Groups one after the other. -/
theorem markGroups_adds (some_ : 0 < region.blocksCount) {groups : List GroupMarking}
    (valid : ∀ g ∈ groups, region.Valid g)
    (increasing : groups.Pairwise fun g h => g.to_ ≤ h.from_)
    (counted : region.context.Counted m marked)
    (fresh : ∀ g ∈ groups, region.context.Fresh marked (region.Marks g)) :
    region.context.Adds (groups.foldl region.markGroup m) marked
      fun i => ∃ g ∈ groups, region.Marks g i := by
  induction groups generalizing m marked with
  | nil =>
    apply Adds.of_nothing counted
    rintro k _ i ⟨g, member, _⟩
    exact absurd member List.not_mem_nil
  | cons first rest ih =>
    obtain ⟨order, increasing⟩ := List.pairwise_cons.mp increasing
    have validFirst := valid first List.mem_cons_self
    have validRest := fun g member => valid g (List.mem_cons_of_mem first member)
    have freshRest : region.context.Fresh marked fun i => ∃ g ∈ rest, region.Marks g i := by
      rintro k counter i ⟨g, member, marks⟩
      exact fresh g (List.mem_cons_of_mem first member) k counter i marks
    have head := markGroup_adds some_ validFirst counted (fresh first List.mem_cons_self)
    have both := head.andThen freshRest
      (fun i ⟨g, member, marks⟩ first => first.apart validFirst (validRest g member)
        (order g member) marks)
      fun after counted' fresh' => ih validRest increasing counted'
        fun g member k counter i marks => fresh' k counter i ⟨g, member, marks⟩
    apply both.of_iff
    intro i
    rw [List.exists_mem_cons_iff]

/-- What has been counted when groups have been marked in a new context. -/
theorem markGroups_counted (some_ : 0 < region.blocksCount) {groups : List GroupMarking}
    (valid : ∀ g ∈ groups, region.Valid g)
    (increasing : groups.Pairwise fun g h => g.to_ ≤ h.from_) :
    ∃ after, region.context.Counted (region.markGroups groups) after ∧
      ∀ k < region.context.pagesCount, ∀ i, i ∈ after (region.context.releasePageOffset + k) ↔
        (∃ g ∈ groups, region.Marks g i) ∧ Overlaps region.page region.blockSize i k := by
  obtain ⟨after, counted, exact_⟩ := markGroups_adds some_ valid increasing
    region.covers.sized.counted_pageMap fun g _ k _ i _ => Finset.notMem_empty i
  refine ⟨after, counted, ?_⟩
  intro k counter i
  have touches : i ∈ touching region.context.blockSize region.context.page.bytes
      (region.context.releasePageOffset + k) ↔ Overlaps region.page region.blockSize i k := by
    rw [region.offset_zero, Nat.zero_add, mem_touching region.covers.sized.1]
    rfl
  rw [exact_ k counter i, touches, or_iff_right (Finset.notMem_empty i)]

theorem markGroups_exact (some_ : 0 < region.blocksCount) {groups : List GroupMarking}
    (valid : ∀ g ∈ groups, region.Valid g)
    (increasing : groups.Pairwise fun g h => g.to_ ≤ h.from_) {k : Nat}
    (counter : k < region.context.pagesCount) : region.CountsExactly groups k := by
  obtain ⟨after, counted, exact_⟩ := markGroups_counted some_ valid increasing
  have sized := region.covers.sized
  refine ⟨after (region.context.releasePageOffset + k), exact_ k counter, ?_⟩
  obtain ⟨subset, count | ⟨mask, all⟩⟩ := counted.pages k counter
  · have less := Finset.card_le_card subset
    have most := sized.card_le (region.context.releasePageOffset + k)
    exact Or.inl ⟨count, less.trans (most.trans counted.max_le)⟩
  · refine Or.inr ⟨mask, ?_⟩
    intro i overlaps
    rw [all, region.offset_zero, Nat.zero_add, mem_touching sized.1]
    exact overlaps

/-- Groups that mark the same blocks release the same ranges. -/
theorem releaseFreeMemoryToOS_congr (some_ : 0 < region.blocksCount)
    {groups groups' : List GroupMarking} (valid : ∀ g ∈ groups, region.Valid g)
    (valid' : ∀ g ∈ groups', region.Valid g)
    (increasing : groups.Pairwise fun g h => g.to_ ≤ h.from_)
    (increasing' : groups'.Pairwise fun g h => g.to_ ≤ h.from_)
    (same : ∀ i, (∃ g ∈ groups, region.Marks g i) ↔ ∃ g ∈ groups', region.Marks g i) :
    region.context.releaseFreeMemoryToOS (region.markGroups groups) =
      region.context.releaseFreeMemoryToOS (region.markGroups groups') := by
  have sized := region.covers.sized
  obtain ⟨after, counted, exact_⟩ := markGroups_counted some_ valid increasing
  obtain ⟨after', counted', exact'⟩ := markGroups_counted some_ valid' increasing'
  rw [PageReleaseContext.releaseFreeMemoryToOS_eq sized counted,
    PageReleaseContext.releaseFreeMemoryToOS_eq sized counted']
  unfold FreePagesRangeTracker.ranges
  congr 2
  apply FreePagesRangeTracker.walk_congr
  intro k counter
  have page : after (region.context.releasePageOffset + k) =
      after' (region.context.releasePageOffset + k) := by
    ext i
    rw [exact_ k counter, exact' k counter, same]
  rw [decide_eq_decide]
  unfold PageReleaseContext.Complete
  rw [page]

/-- A range marks what a free list of the blocks that begin in it does. -/
theorem marks_range_iff {freeList : List TransferBatch} (inside : to_ ≤ region.regionSize)
    (free : FreeBlocks region.blockSize region.blocksCount region.base region.decompactPtr freeList)
    (all : ∀ i < region.blocksCount, region.InList freeList i ↔
      from_ ≤ i * region.blockSize ∧ i * region.blockSize < to_) :
    region.Marks (.range from_ to_) i ↔ region.Marks (.blocks from_ to_ freeList) i := by
  apply or_congr_left
  constructor
  · intro begins
    exact (all i (Nat.lt_of_mul_lt_mul_right (begins.2.trans_le inside))).mpr begins
  · intro listed
    exact (all i (free.lt region.positive listed)).mp listed

/-- A range releases what its blocks release, between any other groups, and in both cases the
counters are exact from the first group to the last one. -/
theorem range_marking_agrees (region : WholeRegion) (before after : List GroupMarking)
    (from_ to_ : Nat) (freeList : List TransferBatch)
    (valid : ∀ g ∈ before ++ .range from_ to_ :: after, region.Valid g)
    (increasing : (before ++ .range from_ to_ :: after).Pairwise fun g h => g.to_ ≤ h.from_)
    (free : FreeBlocks region.blockSize region.blocksCount region.base region.decompactPtr freeList)
    (all : ∀ i < region.blocksCount, region.InList freeList i ↔
      from_ ≤ i * region.blockSize ∧ i * region.blockSize < to_)
    (begins : ∃ i < region.blocksCount,
      from_ ≤ i * region.blockSize ∧ i * region.blockSize < to_) :
    region.context.releaseFreeMemoryToOS
        (region.markGroups (before ++ .range from_ to_ :: after)) =
      region.context.releaseFreeMemoryToOS
        (region.markGroups (before ++ .blocks from_ to_ freeList :: after)) ∧
    ∀ k < region.context.pagesCount,
      (∀ part, part <+: before ++ .range from_ to_ :: after → region.CountsExactly part k) ∧
      ∀ part, part <+: before ++ .blocks from_ to_ freeList :: after →
        region.CountsExactly part k := by
  obtain ⟨first, less, _⟩ := begins
  have some_ : 0 < region.blocksCount := Nat.zero_lt_of_lt less
  have validRange : region.Valid (.range from_ to_) := valid _ (by simp)
  have validBlocks : region.Valid (.blocks from_ to_ freeList) :=
    ⟨free, fun i less listed => (all i less).mp listed⟩
  have valid' : ∀ g ∈ before ++ .blocks from_ to_ freeList :: after, region.Valid g := by
    intro g member
    simp only [List.mem_append, List.mem_cons] at member valid
    rcases member with early | rfl | late
    · exact valid g (Or.inl early)
    · exact validBlocks
    · exact valid g (Or.inr (Or.inr late))
  have increasing' : (before ++ .blocks from_ to_ freeList :: after).Pairwise
      fun g h => g.to_ ≤ h.from_ := by
    simp only [List.pairwise_append, List.pairwise_cons, List.mem_cons, forall_eq_or_imp] at *
    exact increasing
  have same : ∀ i, (∃ g ∈ before ++ .range from_ to_ :: after, region.Marks g i) ↔
      ∃ g ∈ before ++ .blocks from_ to_ freeList :: after, region.Marks g i := by
    intro i
    simp only [List.mem_append, List.mem_cons, or_and_right, exists_or, exists_eq_left,
      marks_range_iff validRange.2 free all]
  refine ⟨releaseFreeMemoryToOS_congr some_ valid valid' increasing increasing' same, ?_⟩
  intro k counter
  constructor
  · intro part start
    exact markGroups_exact some_ (fun g member => valid g (start.subset member))
      (increasing.sublist start.sublist) counter
  · intro part start
    exact markGroups_exact some_ (fun g member => valid' g (start.subset member))
      (increasing'.sublist start.sublist) counter

section Middle

/-- Seven blocks of 2560 bytes on five pages, the last one of which is not full. -/
def sevenBlocks : WholeRegion where
  page := PageSize.small
  blockSize := 2560
  blocksCount := 7
  base := 65536
  decompactPtr := id
  positive := by decide
  fits := by decide

def firstBlock : List TransferBatch := [⟨[65536]⟩]
def middleBlocks : List TransferBatch := [⟨[73216, 70656]⟩, ⟨[75776]⟩]
def lastBlocks : List TransferBatch := [⟨[78336, 80896]⟩]

/-- The two middle pages between groups of which some blocks, and all, are free. -/
theorem range_marking_agrees_middle :
    sevenBlocks.context.releaseFreeMemoryToOS (sevenBlocks.markGroups
        ([.blocks 0 4096 firstBlock] ++ .range 4096 12288 :: [.blocks 12288 17920 lastBlocks])) =
      [(8192, 20480)] ∧
    sevenBlocks.context.releaseFreeMemoryToOS (sevenBlocks.markGroups
        ([.blocks 0 4096 firstBlock] ++ .blocks 4096 12288 middleBlocks ::
          [.blocks 12288 17920 lastBlocks])) = [(8192, 20480)] := by
  have released : sevenBlocks.context.releaseFreeMemoryToOS (sevenBlocks.markGroups
      ([.blocks 0 4096 firstBlock] ++ .range 4096 12288 :: [.blocks 12288 17920 lastBlocks])) =
        [(8192, 20480)] := by
    decide +kernel
  have valid : ∀ g ∈ [.blocks 0 4096 firstBlock] ++ .range 4096 12288 ::
      [.blocks 12288 17920 lastBlocks], sevenBlocks.Valid g := by
    intro g member
    simp only [List.mem_append, List.mem_cons, List.not_mem_nil, or_false] at member
    rcases member with rfl | rfl | rfl
    · refine ⟨⟨by decide, by decide⟩, ?_⟩
      unfold InList InFreeList
      decide
    · exact ⟨by decide, by decide⟩
    · refine ⟨⟨by decide, by decide⟩, ?_⟩
      unfold InList InFreeList
      decide
  have all : ∀ i < sevenBlocks.blocksCount, sevenBlocks.InList middleBlocks i ↔
      4096 ≤ i * sevenBlocks.blockSize ∧ i * sevenBlocks.blockSize < 12288 := by
    unfold InList InFreeList
    decide
  have agrees := range_marking_agrees sevenBlocks [.blocks 0 4096 firstBlock]
    [.blocks 12288 17920 lastBlocks] 4096 12288 middleBlocks valid (by decide)
    ⟨by decide, by decide⟩ all ⟨2, by decide⟩
  exact ⟨released, agrees.1.symm.trans released⟩

end Middle

end WholeRegion

end Scudo.Primary
