import Scudo.Primary.PageReleaseExact
import Scudo.Primary.PageReleaseSpec

/-!
Marking all groups marks their blocks only, so that the pages on which all blocks are marked are
free.
-/

namespace Scudo.Primary
open Scudo.Lib
open Scudo.Lib.Tiling
open PageReleaseContext (Counted Covers)

namespace RegionInfo

variable {c : PrimaryConfig} {region : RegionInfo c} {g : BatchGroup} {ctx : PageReleaseContext}
  {m : RegionPageMap} {marked : Nat → Finset Nat} {limit : Nat}

/-- A context for the pages of a region below `limit`. -/
structure Reaches (region : RegionInfo c) (ctx : PageReleaseContext) (limit : Nat) : Prop where
  covers : ctx.Covers region.blocksCount limit
  starts : ctx.Starts region.blocksCount
  block : ctx.blockSize = region.blockSize
  page : ctx.page = c.page
  -- up to the end of the last block that starts below `limit`
  counters : ctx.pagesCount = (limit ⌈/⌉ region.blockSize * region.blockSize -
    ctx.releasePageOffset * ctx.page.bytes) ⌈/⌉ ctx.page.bytes

/-- The group lies in the pages of the context. -/
def Within (region : RegionInfo c) (ctx : PageReleaseContext) (limit : Nat) (g : BatchGroup) :
    Prop :=
  ctx.releasePageOffset * ctx.page.bytes ≤ groupStart c g ∧ region.usedEnd g ≤ limit

/-- What marking a group marks: its blocks, and those after the end of the region where it gets
there. -/
def Marked (region : RegionInfo c) (g : BatchGroup) (i : Nat) : Prop :=
  region.Records g i ∨ region.blocksCount ≤ i ∧
    if g.numBlocks = region.maxContainedBlocks g then region.Ends g
    else region.allocatedUser ≤ groupStart c g + c.groupSize

theorem Marked.free (exact_ : region.Exact g) {i : Nat} (is : region.Marked g i) :
    region.Free g i := by
  rcases is with recorded | ⟨after, ends⟩
  · exact Or.inl ⟨(exact_.below recorded).2.2, recorded⟩
  · refine Or.inr ⟨after, ?_⟩
    split_ifs at ends
    · exact ends
    · exact exact_.ends ends

theorem Exact.blocksCount_pos (exact_ : region.Exact g) : 0 < region.blocksCount := by
  obtain ⟨p, member⟩ := List.exists_mem_of_ne_nil _ exact_.some
  obtain ⟨i, less, _⟩ := exact_.block p member
  exact Nat.zero_lt_of_lt less

/-- A group of which all blocks are free. -/
theorem markWhole_adds (reaches : region.Reaches ctx limit) (exact_ : region.Exact g)
    (within : region.Within ctx limit g) (counted : ctx.Counted m marked)
    (fresh : ctx.Fresh marked (region.Marked g))
    (full : g.numBlocks = region.maxContainedBlocks g) :
    ctx.Adds (ctx.markRangeAsAllCounted m (region.batchGroupBase g) (region.batchGroupUsedEnd g)
      region.regionBeg region.allocatedUser) marked (region.Marked g) := by
  have positive := region.positive
  have some_ := exact_.blocksCount_pos
  have ending : ctx.page.bytes ∣ region.usedEnd g ∨
      region.usedEnd g = region.blocksCount * ctx.blockSize := by
    unfold usedEnd
    rcases Nat.le_total (groupStart c g + c.groupSize) region.allocatedUser with inner | last
    · rw [Nat.min_eq_left inner, reaches.page]
      exact Or.inl (Nat.dvd_add (c.page_dvd.trans exact_.start_dvd) c.page_dvd)
    · rw [Nat.min_eq_right last, reaches.block]
      exact Or.inr (allocatedUser_eq region)
  have same : ∀ i, region.Marked g i ↔
      ctx.Ranges region.blocksCount (groupStart c g) (region.usedEnd g) i := by
    intro i
    unfold Marked PageReleaseContext.Ranges
    rw [if_pos full, reaches.block]
    constructor
    · rintro (recorded | ⟨after, first, last⟩)
      · obtain ⟨above, less, _⟩ := exact_.below recorded
        exact Or.inl ⟨above, less⟩
      · rw [← ceilDiv_le positive] at first
        have inUse : (region.blocksCount - 1) * region.blockSize < region.usedEnd g := by
          apply Nat.lt_min.mpr ⟨last, ?_⟩
          rw [allocatedUser_eq]
          exact Nat.mul_lt_mul_of_pos_right (by omega) positive
        have most : region.usedEnd g ⌈/⌉ region.blockSize ≤ region.blocksCount := by
          rw [ceilDiv_le positive, ← allocatedUser_eq]
          exact Nat.min_le_right _ _
        rw [← lt_ceilDiv positive] at inUse
        exact Or.inr ⟨by omega, by omega, after⟩
    · rintro (⟨above, less⟩ | ⟨first, last, after⟩)
      · exact Or.inl (exact_.all full above less)
      · refine Or.inr ⟨after, ?_, ?_⟩
        · rw [← ceilDiv_le positive]
          exact Nat.le_sub_one_of_lt first
        · have less : (region.blocksCount - 1) * region.blockSize < region.usedEnd g := by
            rw [← lt_ceilDiv positive, last]
            exact Nat.sub_one_lt_of_lt first
          exact less.trans_le (Nat.min_le_left _ _)
  rw [exact_.usedEnd_eq, allocatedUser_eq, ← reaches.block]
  have adds := PageReleaseContext.markRangeAsAllCounted_adds reaches.covers reaches.starts counted
    region.regionBeg within.2 ending within.1 fun k counter i is => fresh k counter i ((same i).mpr is)
  exact adds.of_iff same

/-- A group of which some blocks are not free. -/
theorem markSome_adds (reaches : region.Reaches ctx limit) (exact_ : region.Exact g)
    (within : region.Within ctx limit g) (counted : ctx.Counted m marked)
    (fresh : ctx.Fresh marked (region.Marked g))
    (part : g.numBlocks ≠ region.maxContainedBlocks g) :
    ctx.Adds (ctx.markFreeBlocksInRegion m g.batches
      (c.decompactPtrInternal region.compactPtrBase) region.regionBeg region.allocatedUser
      (region.batchGroupUsedEnd g == region.allocatedUserEnd)) marked (region.Marked g) := by
  obtain ⟨order, nodup, map, mem⟩ := exact_.numbers
  have limit_le := reaches.covers.limit_le
  have start := exact_.start_lt
  have some_ := exact_.blocksCount_pos
  have offset : ctx.releasePageOffset * ctx.page.bytes ≤ groupStart c g := within.1
  rw [reaches.block, ← allocatedUser_eq] at limit_le
  have inside : ∀ i ∈ order, ctx.releasePageOffset ≤ i * ctx.blockSize / ctx.page.bytes ∧
      i * ctx.blockSize < limit := by
    intro i member
    obtain ⟨lower, upper, _⟩ := exact_.below ((mem i).mp member)
    rw [reaches.block, Nat.le_div_iff_mul_le ctx.page.pos]
    exact ⟨offset.trans lower, upper.trans_le within.2⟩
  have last_iff : (region.batchGroupUsedEnd g == region.allocatedUserEnd) = true ↔
      region.allocatedUser ≤ groupStart c g + c.groupSize := by
    rw [beq_iff_eq, exact_.usedEnd_eq]
    unfold allocatedUserEnd usedEnd
    omega
  have lastBlock : (region.batchGroupUsedEnd g == region.allocatedUserEnd) = true →
      limit = region.blocksCount * ctx.blockSize ∧ 0 < region.blocksCount ∧
        ctx.releasePageOffset ≤ region.blocksCount * ctx.blockSize / ctx.page.bytes := by
    intro last
    have whole : region.usedEnd g = region.allocatedUser := Nat.min_eq_right (last_iff.mp last)
    rw [Nat.le_div_iff_mul_le ctx.page.pos, reaches.block, ← allocatedUser_eq]
    exact ⟨le_antisymm limit_le (whole ▸ within.2), some_, by omega⟩
  have same : ∀ i, region.Marked g i ↔
      i ∈ order ∨ (region.batchGroupUsedEnd g == region.allocatedUserEnd) = true ∧
        region.blocksCount ≤ i := by
    intro i
    unfold Marked
    rw [if_neg part, mem, last_iff, And.comm (a := region.blocksCount ≤ i)]
  have adds := PageReleaseContext.markFreeBlocksInRegion_adds reaches.covers reaches.starts counted
    nodup (by rw [reaches.block]; exact map) inside lastBlock
    fun k counter i is => fresh k counter i ((same i).mpr is)
  rw [allocatedUser_eq, ← reaches.block]
  exact adds.of_iff same

theorem markGroup_adds (reaches : region.Reaches ctx limit) (exact_ : region.Exact g)
    (within : region.Within ctx limit g) (counted : ctx.Counted m marked)
    (fresh : ctx.Fresh marked (region.Marked g)) :
    ctx.Adds (region.markGroup ctx m g) marked (region.Marked g) := by
  unfold markGroup
  split_ifs with full
  · exact markWhole_adds reaches exact_ within counted fresh full
  · exact markSome_adds reaches exact_ within counted fresh full

/-- Groups one after the other. -/
theorem markGroups_adds (reaches : region.Reaches ctx limit) {groups : List BatchGroup}
    (exact_ : ∀ g ∈ groups, region.Exact g)
    (sorted : groups.Pairwise fun h g => h.compactPtrGroupBase < g.compactPtrGroupBase)
    (within : ∀ g ∈ groups, region.Within ctx limit g) (counted : ctx.Counted m marked)
    (fresh : ∀ g ∈ groups, ctx.Fresh marked (region.Marked g)) :
    ctx.Adds (groups.foldl (fun m g => region.markGroup ctx m g) m) marked
      fun i => ∃ g ∈ groups, region.Marked g i := by
  induction groups generalizing m marked with
  | nil =>
    apply PageReleaseContext.Adds.of_nothing counted
    rintro k _ i ⟨g, member, _⟩
    exact absurd member List.not_mem_nil
  | cons first rest ih =>
    obtain ⟨order, sorted⟩ := List.pairwise_cons.mp sorted
    have exactFirst := exact_ first List.mem_cons_self
    have exactRest := fun g member => exact_ g (List.mem_cons_of_mem first member)
    have freshRest : ctx.Fresh marked fun i => ∃ g ∈ rest, region.Marked g i := by
      rintro k counter i ⟨g, member, is⟩
      exact fresh g (List.mem_cons_of_mem first member) k counter i is
    have head := markGroup_adds reaches exactFirst (within first List.mem_cons_self) counted
      (fresh first List.mem_cons_self)
    have both := head.andThen freshRest
      (fun i ⟨g, member, is⟩ first => (first.free exactFirst).separate exactFirst
        (exactRest g member) (order g member) (is.free (exactRest g member)))
      fun after counted' fresh' => ih exactRest sorted
        (fun g member => within g (List.mem_cons_of_mem _ member)) counted'
        fun g member k counter i is => fresh' k counter i ⟨g, member, is⟩
    apply both.of_iff
    intro i
    rw [List.exists_mem_cons_iff]

theorem groupStart_mono {h : BatchGroup} (le : h.compactPtrGroupBase ≤ g.compactPtrGroupBase) :
    groupStart c h ≤ groupStart c g := by
  unfold groupStart
  rw [Nat.shiftLeft_eq, Nat.shiftLeft_eq]
  exact Nat.mul_le_mul_right _ le

/-- The last one of sorted groups. -/
theorem le_getLastD {first : BatchGroup} {rest : List BatchGroup}
    (sorted : (first :: rest).Pairwise fun h g => h.compactPtrGroupBase < g.compactPtrGroupBase) :
    ∀ g ∈ first :: rest,
      g.compactPtrGroupBase ≤ (rest.getLastD first).compactPtrGroupBase := by
  induction rest generalizing first with
  | nil =>
    intro g member
    rw [List.mem_singleton.mp member]
    exact le_rfl
  | cons second rest ih =>
    obtain ⟨after, ordered⟩ := List.pairwise_cons.mp sorted
    rw [List.getLastD_cons]
    intro g member
    rcases List.mem_cons.mp member with rfl | later
    · exact (after second List.mem_cons_self).le.trans (ih ordered second List.mem_cons_self)
    · exact ih ordered g later

/-- The context of sorted groups reaches from the first one to the end of the last one. -/
theorem releaseContext_reaches {first last : BatchGroup} (exactFirst : region.Exact first)
    (exactLast : region.Exact last)
    (order : first.compactPtrGroupBase ≤ last.compactPtrGroupBase) :
    region.Reaches (region.releaseContext first last) (region.usedEnd last) ∧
      (region.releaseContext first last).releasePageOffset * c.page.bytes = groupStart c first := by
  have positive := region.positive
  have pages := c.page.pos
  have fits := region.fits
  have starts : groupStart c first ≤ groupStart c last := groupStart_mono order
  have less : groupStart c last < region.usedEnd last :=
    Nat.lt_min.mpr ⟨Nat.lt_add_of_pos_right c.groupSize_pos, exactLast.start_lt⟩
  have base : region.batchGroupBase first - region.regionBeg = groupStart c first :=
    Nat.add_sub_cancel_left _ _
  have offset : (region.releaseContext first last).releasePageOffset * c.page.bytes =
      groupStart c first := by
    change (region.batchGroupBase first - region.regionBeg) >>> pageSizeLog c.page * _ = _
    rw [base, shiftRight_pageSizeLog]
    exact Nat.div_mul_cancel (c.page_dvd.trans exactFirst.start_dvd)
  have reach := le_ceilDiv_mul (x := region.usedEnd last) positive
  have most : region.usedEnd last ⌈/⌉ region.blockSize * region.blockSize ≤
      region.allocatedUser := by
    rw [allocatedUser_eq]
    apply Nat.mul_le_mul_right
    rw [ceilDiv_le positive, ← allocatedUser_eq]
    exact Nat.min_le_right _ _
  have size : region.releaseEnd last - region.batchGroupBase first =
      region.usedEnd last ⌈/⌉ region.blockSize * region.blockSize - groupStart c first := by
    have group : min (region.batchGroupBase last + c.groupSize) region.allocatedUserEnd -
        region.regionBeg = region.usedEnd last := by
      unfold usedEnd allocatedUserEnd
      change min (region.regionBeg + groupStart c last + c.groupSize) _ - _ = _
      omega
    unfold releaseEnd
    dsimp only
    rw [group, roundUpSlow_eq]
    change _ - (region.regionBeg + groupStart c first) = _
    omega
  have count : (region.releaseContext first last).pagesCount =
      (region.usedEnd last ⌈/⌉ region.blockSize * region.blockSize - groupStart c first) ⌈/⌉
        c.page.bytes := by
    change roundUp 64 (region.releaseEnd last - region.batchGroupBase first) c.page.bytes >>>
      pageSizeLog c.page = _
    have large := c.page.atMost
    rw [size, roundUp_eq c.page.power (by omega) (by omega), roundUpSlow_eq,
      shiftRight_pageSizeLog, Nat.mul_div_cancel _ pages]
  refine ⟨⟨⟨⟨positive, rfl, rfl⟩, ?_, ?_, ?_⟩, ?_, rfl, rfl, offset.symm ▸ count⟩, offset⟩
  · change region.usedEnd last ≤ region.blocksCount * region.blockSize
    exact reach.trans (most.trans (allocatedUser_eq region).le)
  · change region.blocksCount * region.blockSize + region.blockSize + c.page.bytes ≤ 2 ^ 64
    rw [← allocatedUser_eq]
    omega
  · intro x inside
    change x / c.page.bytes - (region.releaseContext first last).releasePageOffset < _
    rw [count, lt_ceilDiv pages, Nat.sub_mul, offset]
    have lower := Nat.div_mul_le_self x c.page.bytes
    omega
  · intro k inside
    rw [count, lt_ceilDiv pages] at inside
    change ((region.releaseContext first last).releasePageOffset + k) * c.page.bytes <
      region.blocksCount * region.blockSize
    rw [Nat.add_mul, offset, ← allocatedUser_eq]
    omega

/-- `markFreeBlocks` counts the blocks of all groups, on the pages from the first group on. -/
theorem markFreeBlocks_counted {allocates : Bool} {groups : List BatchGroup}
    (exact_ : ∀ g ∈ groups, region.Exact g)
    (sorted : groups.Pairwise fun h g => h.compactPtrGroupBase < g.compactPtrGroupBase)
    (marks : region.markFreeBlocks allocates groups = some (ctx, m)) :
    ∃ limit marked, region.Reaches ctx limit ∧ (∀ g ∈ groups, region.Within ctx limit g) ∧
      ctx.Counted m marked ∧ ∀ k < ctx.pagesCount, ∀ i, i ∈ marked (ctx.releasePageOffset + k) ↔
        (∃ g ∈ groups, region.Marked g i) ∧
          i ∈ touching ctx.blockSize ctx.page.bytes (ctx.releasePageOffset + k) := by
  cases groups with
  | nil => cases marks
  | cons first rest =>
    unfold markFreeBlocks at marks
    dsimp only at marks
    split_ifs at marks
    rw [Option.some.injEq, Prod.mk.injEq] at marks
    obtain ⟨rfl, rfl⟩ := marks
    have exactFirst := exact_ first List.mem_cons_self
    obtain ⟨after, between⟩ := List.pairwise_cons.mp sorted
    have lastMember : rest.getLastD first ∈ first :: rest := List.getLastD_mem_cons
    have order : ∀ g ∈ first :: rest,
        first.compactPtrGroupBase ≤ g.compactPtrGroupBase ∧
          g.compactPtrGroupBase ≤ (rest.getLastD first).compactPtrGroupBase := by
      intro g member
      refine ⟨?_, le_getLastD sorted g member⟩
      rcases List.mem_cons.mp member with rfl | later
      · exact le_rfl
      · exact (after g later).le
    obtain ⟨reaches, offset⟩ := releaseContext_reaches exactFirst (exact_ _ lastMember)
      (order _ lastMember).1
    have within : ∀ g ∈ first :: rest, region.Within (region.releaseContext first
        (rest.getLastD first)) (region.usedEnd (rest.getLastD first)) g := by
      intro g member
      obtain ⟨lower, upper⟩ := order g member
      constructor
      · calc (region.releaseContext first (rest.getLastD first)).releasePageOffset * c.page.bytes
            = groupStart c first := offset
          _ ≤ groupStart c g := groupStart_mono lower
      · exact min_le_min_right _ (Nat.add_le_add_right (groupStart_mono upper) _)
    obtain ⟨marked, counted, adds⟩ := markGroups_adds reaches exact_ sorted within
      reaches.covers.sized.counted_pageMap fun g _ k _ i _ => Finset.notMem_empty i
    refine ⟨_, marked, reaches, within, counted, ?_⟩
    intro k counter i
    rw [adds k counter, or_iff_right (Finset.notMem_empty i)]

/-- A range consists of pages, and every block with bytes in one of them is recorded in a group that
was extracted. -/
theorem releasedRanges_recorded {allocates : Bool} {groups : List BatchGroup}
    (exact_ : ∀ g ∈ groups, region.Exact g)
    (sorted : groups.Pairwise fun h g => h.compactPtrGroupBase < g.compactPtrGroupBase)
    {range : Nat × Nat} (released : range ∈ region.releasedRanges allocates groups) :
    ∃ start end_, range =
        (region.regionBeg + start * c.page.bytes, end_ * c.page.bytes - start * c.page.bytes) ∧
      ∀ j, start ≤ j → j < end_ → ∀ i < region.blocksCount, Overlaps c.page region.blockSize i j →
        ∃ g ∈ groups, region.Records g i := by
  unfold releasedRanges at released
  cases marks : region.markFreeBlocks allocates groups with
  | none =>
    rw [marks] at released
    cases released
  | some done =>
    obtain ⟨ctx, m⟩ := done
    rw [marks] at released
    obtain ⟨limit, marked, reaches, -, counted, only⟩ :=
      markFreeBlocks_counted exact_ sorted marks
    have sized := reaches.covers.sized
    obtain ⟨inner, member, rfl⟩ := List.mem_map.mp released
    obtain ⟨start, end_, rfl, counters, complete⟩ :=
      (PageReleaseContext.releaseFreeMemoryToOS_complete sized counted).1 inner member
    have offset : ctx.getReleaseOffset = ctx.releasePageOffset * ctx.page.bytes :=
      shiftLeft_pageSizeLog _ _
    rw [reaches.page] at offset
    refine ⟨ctx.releasePageOffset + start, ctx.releasePageOffset + end_, ?_, ?_⟩
    · rw [offset, Nat.add_mul, Nat.add_mul, Nat.add_assoc, Nat.add_sub_add_left, reaches.page]
    intro j lower upper i real overlaps
    have all := complete (j - ctx.releasePageOffset) (by omega) (by omega)
    unfold PageReleaseContext.Complete at all
    rw [Nat.add_sub_cancel' (by omega)] at all
    have touch : i ∈ touching ctx.blockSize ctx.page.bytes j := by
      rw [mem_touching sized.1, reaches.block, reaches.page]
      exact overlaps
    have here := only (j - ctx.releasePageOffset) (by omega) i
    rw [Nat.add_sub_cancel' (by omega), all] at here
    obtain ⟨⟨g, extracted, recorded | ⟨after, _⟩⟩, _⟩ := here.mp touch
    · exact ⟨g, extracted, recorded⟩
    · omega

/-- A page is released only if every block with a byte in it is recorded in a group that was
extracted. -/
theorem page_release_sound {c : PrimaryConfig} (region : RegionInfo c) (allocates : Bool)
    (groups : List BatchGroup) (exact_ : ∀ g ∈ groups, region.Exact g)
    (sorted : groups.Pairwise fun h g => h.compactPtrGroupBase < g.compactPtrGroupBase)
    (range : Nat × Nat) (released : range ∈ region.releasedRanges allocates groups) (addr i : Nat)
    (from_ : range.1 ≤ addr) (upTo : addr < range.1 + range.2) (real : i < region.blocksCount)
    (first : region.regionBeg + i * region.blockSize ≤ addr)
    (last : addr < region.regionBeg + (i + 1) * region.blockSize) :
    ∃ g ∈ groups, region.Records g i := by
  have pages := c.page.pos
  obtain ⟨start, end_, rfl, recorded⟩ := releasedRanges_recorded exact_ sorted released
  dsimp only at from_ upTo
  -- the page of the byte
  have floor := Nat.div_mul_le_self (addr - region.regionBeg) c.page.bytes
  have next := Nat.lt_div_mul_add pages (a := addr - region.regionBeg)
  rw [← Nat.add_one_mul] at next
  refine recorded ((addr - region.regionBeg) / c.page.bytes) ?_ ?_ i real ⟨by omega, by omega⟩
  · rw [Nat.le_div_iff_mul_le pages]
    omega
  · rw [Nat.div_lt_iff_lt_mul pages]
    omega

/-- A page is released if every block with a byte in it is recorded in a group that was
extracted. -/
theorem page_release_complete {groups : List BatchGroup} (exact_ : ∀ g ∈ groups, region.Exact g)
    (sorted : groups.Pairwise fun h g => h.compactPtrGroupBase < g.compactPtrGroupBase) {j : Nat}
    (inside : (j + 1) * c.page.bytes ≤ region.allocatedUser)
    (all : ∀ i < region.blocksCount, Overlaps c.page region.blockSize i j →
      ∃ g ∈ groups, region.Records g i) :
    ∃ range ∈ region.releasedRanges true groups, range.1 ≤ region.regionBeg + j * c.page.bytes ∧
      region.regionBeg + (j + 1) * c.page.bytes ≤ range.1 + range.2 := by
  have positive := region.positive
  have pages := c.page.pos
  -- the blocks of the first and of the last byte of the page
  have block : ∀ x, j * c.page.bytes ≤ x → x < (j + 1) * c.page.bytes →
      ∃ i, i * region.blockSize ≤ x ∧ x < (i + 1) * region.blockSize ∧
        ∃ g ∈ groups, region.Records g i := by
    intro x low high
    have lower := Nat.div_mul_le_self x region.blockSize
    have upper := Nat.lt_div_mul_add positive (a := x)
    rw [← Nat.add_one_mul] at upper
    refine ⟨x / region.blockSize, lower, upper, all _ ?_ ⟨by omega, by omega⟩⟩
    rw [Nat.div_lt_iff_lt_mul positive, ← allocatedUser_eq]
    omega
  have pageEnd : (j + 1) * c.page.bytes = j * c.page.bytes + c.page.bytes := Nat.succ_mul _ _
  obtain ⟨first, atFirst, -, g, inGroups, recorded⟩ := block (j * c.page.bytes) le_rfl (by omega)
  obtain ⟨last, -, atLast, h, inGroups', recorded'⟩ :=
    block ((j + 1) * c.page.bytes - 1) (by omega) (by omega)
  cases marks : region.markFreeBlocks true groups with
  | none =>
    cases groups with
    | nil => cases inGroups
    | cons head rest => cases marks
  | some done =>
    obtain ⟨ctx, m⟩ := done
    obtain ⟨limit, marked, reaches, within, counted, only⟩ :=
      markFreeBlocks_counted exact_ sorted marks
    have sized := reaches.covers.sized
    have offset : ctx.getReleaseOffset = ctx.releasePageOffset * c.page.bytes := by
      rw [← reaches.page]
      exact shiftLeft_pageSizeLog _ _
    have above : ctx.releasePageOffset ≤ j := by
      have start := (within g inGroups).1
      rw [reaches.page] at start
      have own := ((exact_ g inGroups).below recorded).1
      exact Nat.le_of_mul_le_mul_right (start.trans (own.trans atFirst)) pages
    have counter : j - ctx.releasePageOffset < ctx.pagesCount := by
      have start := ((exact_ h inGroups').below recorded').2.1.trans_le (within h inGroups').2
      rw [← lt_ceilDiv positive] at start
      have stop : (last + 1) * region.blockSize ≤
          limit ⌈/⌉ region.blockSize * region.blockSize := Nat.mul_le_mul_right _ start
      rw [reaches.counters, reaches.page, lt_ceilDiv pages, Nat.sub_mul]
      have order := Nat.mul_le_mul_right c.page.bytes above
      omega
    have complete : ctx.Complete marked (j - ctx.releasePageOffset) := by
      unfold PageReleaseContext.Complete
      ext i
      rw [only _ counter, Nat.add_sub_cancel' above]
      refine and_iff_right_of_imp fun touches => ?_
      rw [mem_touching sized.1, reaches.block, reaches.page] at touches
      have real : i < region.blocksCount := by
        have less := touches.1.trans_le inside
        rw [allocatedUser_eq] at less
        exact Nat.lt_of_mul_lt_mul_right less
      obtain ⟨group, extracted, listed⟩ := all i real touches
      exact ⟨group, extracted, Or.inl listed⟩
    obtain ⟨start, stop, member, lower, upper⟩ :=
      (PageReleaseContext.releaseFreeMemoryToOS_complete sized counted).2 _ counter complete
    unfold releasedRanges
    rw [marks]
    refine ⟨_, List.mem_map_of_mem member, ?_, ?_⟩
    · dsimp only
      rw [offset, reaches.page]
      have le : (ctx.releasePageOffset + start) * c.page.bytes ≤ j * c.page.bytes :=
        Nat.mul_le_mul_right _ (by omega)
      rw [Nat.add_mul] at le
      omega
    · dsimp only
      rw [offset, reaches.page]
      have le : (j + 1) * c.page.bytes ≤ (ctx.releasePageOffset + stop) * c.page.bytes :=
        Nat.mul_le_mul_right _ (by omega)
      rw [Nat.add_mul ctx.releasePageOffset] at le
      omega

section Straddling

/-- Four blocks of 3072 bytes on three pages, with groups of one page each. -/
def straddlingConfig : PrimaryConfig where
  page := PageSize.small
  compactPtrScale := 4
  groupSizeLog := 12
  scale_le := by decide
  page_le := by decide

def straddlingRegion : RegionInfo straddlingConfig where
  regionBeg := 65536
  blockSize := 3072
  allocatedUser := 12288
  positive := by decide
  whole := by decide
  fits := by decide

/-- Both blocks of the first group, and one of the second group, which reaches into the third. -/
def straddlingGroups : List BatchGroup :=
  [⟨0, [⟨[192]⟩, ⟨[0]⟩], 1⟩, ⟨256, [⟨[384]⟩], 1⟩]

/-- Two pages are released, whose blocks are all recorded. -/
theorem page_release_sound_straddling :
    (65536, 8192) ∈ straddlingRegion.releasedRanges true straddlingGroups ∧
      ∃ g ∈ straddlingGroups, straddlingRegion.Records g 2 := by
  have exact_ : ∀ g ∈ straddlingGroups, straddlingRegion.Exact g := by
    intro g member
    rcases List.mem_pair.mp member with rfl | rfl
    · exact ⟨⟨by decide, by decide⟩, by decide, by decide, by decide, by decide⟩
    · exact ⟨⟨by decide, by decide⟩, by decide, by decide, by decide, by decide⟩
  have released : (65536, 8192) ∈ straddlingRegion.releasedRanges true straddlingGroups := by
    decide +kernel
  exact ⟨released, page_release_sound straddlingRegion true straddlingGroups exact_ (by decide) _
    released 73000 2 (by decide) (by decide) (by decide) (by decide) (by decide)⟩

end Straddling

end RegionInfo

end Scudo.Primary
