import Scudo.Primary.PageMap
import Scudo.Primary.Types

/-!
Page release of one region: `PageReleaseContext`, `markFreeBlocks` and `releaseFreeMemoryToOS`.
There is one region, so that the index of the region is left out, and the page map is given to the
marking functions, which allocate it only when they are called on their own.
-/

namespace Scudo.Primary

def pageSizeLog (page : PageSize) : Nat := Nat.log2 page.bytes

structure PageReleaseContext where
  page : PageSize
  blockSize : Nat
  releasePageOffset : Nat
  pagesCount : Nat
  fullPagesBlockCountMax : Nat
  sameBlockCountPerPage : Bool

namespace PageReleaseContext

/-- `FullPagesBlockCountMax` and `SameBlockCountPerPage`. -/
def blockCount (page : PageSize) (blockSize : Nat) : Nat × Bool :=
  if blockSize ≤ page.bytes then
    if page.bytes % blockSize = 0 then (page.bytes / blockSize, true)
    else if blockSize % (page.bytes % blockSize) = 0 then (page.bytes / blockSize + 1, true)
    else (page.bytes / blockSize + 2, false)
  else if blockSize &&& (page.bytes - 1) = 0 then (1, true)
  else (2, false)

/-- The constructor. -/
def new (page : PageSize) (blockSize releaseSize releaseOffset : Nat) : PageReleaseContext where
  page := page
  blockSize := blockSize
  releasePageOffset := releaseOffset >>> pageSizeLog page
  pagesCount := roundUp 64 releaseSize page.bytes >>> pageSizeLog page
  fullPagesBlockCountMax := (blockCount page blockSize).1
  sameBlockCountPerPage := (blockCount page blockSize).2

/-- The page map that `ensurePageMapAllocated` makes. -/
def pageMap (ctx : PageReleaseContext) : RegionPageMap :=
  RegionPageMap.reset ctx.pagesCount ctx.fullPagesBlockCountMax

/-- Indices start at the release offset, and are not below it. -/
def getPageIndex (ctx : PageReleaseContext) (p : Nat) : Nat :=
  (p >>> pageSizeLog ctx.page) - ctx.releasePageOffset

def getReleaseOffset (ctx : PageReleaseContext) : Nat :=
  ctx.releasePageOffset <<< pageSizeLog ctx.page

section Marking

variable (ctx : PageReleaseContext) (m : RegionPageMap)

/-- The page of the first block of a range, unless that block starts the page: the blocks from it
on are counted, and the range goes on with the next page. -/
def markFirstPage (firstBlockInRange : Nat) : RegionPageMap × Nat :=
  let fromInRegion := roundDown 64 firstBlockInRange ctx.page.bytes
  if firstBlockInRange ≠ fromInRegion then
    let numBlocksInFirstPage :=
      (fromInRegion + ctx.page.bytes - firstBlockInRange + ctx.blockSize - 1) / ctx.blockSize
    (m.incN (ctx.getPageIndex fromInRegion) numBlocksInFirstPage,
      roundUp 64 (fromInRegion + 1) ctx.page.bytes)
  else (m, fromInRegion)

/-- The last block of a range may reach over its end, except for the last block of the region. -/
def markLastBlock (toInRegion regionSize : Nat) : RegionPageMap × Nat :=
  let lastBlockInRange := roundDownSlow (toInRegion - 1) ctx.blockSize
  if lastBlockInRange + ctx.blockSize ≠ regionSize then
    if lastBlockInRange + ctx.blockSize ≠ toInRegion then
      (m.incRange (ctx.getPageIndex toInRegion)
        (ctx.getPageIndex (lastBlockInRange + ctx.blockSize - 1)), toInRegion)
    else (m, toInRegion)
  else (m, regionSize)

/-- Mark all blocks of the range from `first` to `last`. -/
def markRangeAsAllCounted (first last base regionSize : Nat) : RegionPageMap :=
  let toInRegion := last - base
  let firstBlockInRange := roundUpSlow (first - base) ctx.blockSize
  if toInRegion ≤ firstBlockInRange then m
  else
    let afterFirst := ctx.markFirstPage m firstBlockInRange
    let afterLast := ctx.markLastBlock afterFirst.1 toInRegion regionSize
    if afterFirst.2 < afterLast.2 then
      afterLast.1.setAsAllCountedRange (ctx.getPageIndex afterFirst.2)
        (ctx.getPageIndex (afterLast.2 - 1))
    else afterLast.1

/-- The blocks that the last page of the region would have after the last block. -/
def markTrailingBlocks (regionSize : Nat) : RegionPageMap :=
  let lastBlockInRegion := (regionSize / ctx.blockSize - 1) * ctx.blockSize
  let roundedRegionSize := roundUp 64 regionSize ctx.page.bytes
  let trailingBlockBase := lastBlockInRegion + ctx.blockSize
  let numTrailingBlocks :=
    (roundUpSlow (roundedRegionSize - trailingBlockBase) ctx.blockSize + ctx.blockSize - 1) /
      ctx.blockSize
  if 0 < numTrailingBlocks then m.incN (ctx.getPageIndex trailingBlockBase) numTrailingBlocks else m

/-- Count one block on its pages. -/
def markBlock (pInRegion : Nat) : RegionPageMap :=
  if ctx.blockSize ≤ ctx.page.bytes ∧ ctx.page.bytes % ctx.blockSize = 0 then
    m.inc (ctx.getPageIndex pInRegion)
  else m.incRange (ctx.getPageIndex pInRegion) (ctx.getPageIndex (pInRegion + ctx.blockSize - 1))

def markFreeBlocksInRegion (freeList : List TransferBatch) (decompactPtr : Nat → Nat)
    (base regionSize : Nat) (mayContainLastBlockInRegion : Bool) : RegionPageMap :=
  let m := if mayContainLastBlockInRegion then ctx.markTrailingBlocks m regionSize else m
  freeList.foldl
    (fun m it => it.batch.foldl (fun m p => ctx.markBlock m (decompactPtr p - base)) m) m

end Marking

end PageReleaseContext

section MarkFreeBlocks

variable {c : PrimaryConfig} (region : RegionInfo c)

namespace RegionInfo

/-- `CompactPtrBase` is the beginning of the region. -/
def compactPtrBase : Nat := region.regionBeg

def allocatedUserEnd : Nat := region.allocatedUser + region.regionBeg

def batchGroupBase (g : BatchGroup) : Nat :=
  c.decompactGroupBase region.compactPtrBase g.compactPtrGroupBase

def batchGroupEnd (g : BatchGroup) : Nat := region.batchGroupBase g + c.groupSize

def allocatedGroupSize (g : BatchGroup) : Nat :=
  if region.batchGroupEnd g ≤ region.allocatedUserEnd then c.groupSize
  else region.allocatedUserEnd - region.batchGroupBase g

def batchGroupUsedEnd (g : BatchGroup) : Nat := region.batchGroupBase g + region.allocatedGroupSize g

def maxContainedBlocks (g : BatchGroup) : Nat :=
  let blockAlignedWithUsedEnd :=
    (region.batchGroupUsedEnd g - region.regionBeg) % region.blockSize = 0
  if blockAlignedWithUsedEnd then region.allocatedGroupSize g / region.blockSize
  else region.allocatedGroupSize g / region.blockSize + 1

/-- The body of the loop of `markFreeBlocks`. -/
def markGroup (ctx : PageReleaseContext) (m : RegionPageMap) (g : BatchGroup) : RegionPageMap :=
  if g.numBlocks = region.maxContainedBlocks g then
    ctx.markRangeAsAllCounted m (region.batchGroupBase g) (region.batchGroupUsedEnd g)
      region.regionBeg region.allocatedUser
  else
    ctx.markFreeBlocksInRegion m g.batches (c.decompactPtrInternal region.compactPtrBase)
      region.regionBeg region.allocatedUser
      (region.batchGroupUsedEnd g == region.allocatedUserEnd)

/-- The end of the last group, or of the block that reaches over it, in the region. -/
def releaseEnd (last : BatchGroup) : Nat :=
  let lastGroupEnd := min (region.batchGroupBase last + c.groupSize) region.allocatedUserEnd
  roundUpSlow (lastGroupEnd - region.regionBeg) region.blockSize + region.regionBeg

def releaseContext (first last : BatchGroup) : PageReleaseContext :=
  let releaseBase := region.batchGroupBase first
  PageReleaseContext.new c.page region.blockSize (region.releaseEnd last - releaseBase)
    (releaseBase - region.regionBeg)

/-- `none` where the page map cannot be allocated; there is a first group. -/
def markFreeBlocks (allocates : Bool) :
    List BatchGroup → Option (PageReleaseContext × RegionPageMap)
  | [] => none
  | first :: rest =>
    let ctx := region.releaseContext first (rest.getLastD first)
    if allocates then
      some (ctx, (first :: rest).foldl (fun m g => region.markGroup ctx m g) ctx.pageMap)
    else none

end RegionInfo

end MarkFreeBlocks

/-- The ranges of pages that are released, as `Recorder` gets them. -/
structure FreePagesRangeTracker where
  inRange : Bool
  currentPage : Nat
  currentRangeStatePage : Nat
  released : List (Nat × Nat)

namespace FreePagesRangeTracker

def start : FreePagesRangeTracker := ⟨false, 0, 0, []⟩

def closeOpenedRange (page : PageSize) (t : FreePagesRangeTracker) : FreePagesRangeTracker :=
  if t.inRange then
    { t with
      inRange := false
      released := t.released ++
        [(t.currentRangeStatePage <<< pageSizeLog page, t.currentPage <<< pageSizeLog page)] }
  else t

def processNextPage (page : PageSize) (t : FreePagesRangeTracker) (released : Bool) :
    FreePagesRangeTracker :=
  let t :=
    if released then
      if t.inRange then t else { t with currentRangeStatePage := t.currentPage, inRange := true }
    else t.closeOpenedRange page
  { t with currentPage := t.currentPage + 1 }

end FreePagesRangeTracker

/-- The state of the loops of `releaseFreeMemoryToOS`. -/
structure PageWalk where
  pageMap : RegionPageMap
  rangeTracker : FreePagesRangeTracker
  prevPageBoundary : Nat
  currentBoundary : Nat

namespace PageReleaseContext

variable (ctx : PageReleaseContext)

/-- The number of blocks on the next page, and where the next boundary is after it. -/
def blocksPerPage (prevPageBoundary currentBoundary : Nat) : Nat × Nat :=
  let pn := if ctx.blockSize < ctx.page.bytes then ctx.page.bytes / ctx.blockSize else 1
  let pnc := pn * ctx.blockSize
  let pageBoundary := prevPageBoundary + ctx.page.bytes
  if currentBoundary < pageBoundary then
    let blocks := if prevPageBoundary < currentBoundary then pn + 1 else pn
    if currentBoundary + pnc < pageBoundary then
      (blocks + 1, currentBoundary + pnc + ctx.blockSize)
    else (blocks, currentBoundary + pnc)
  else (pn, currentBoundary)

/-- One page of the fast path, and of the slow path. -/
def walkPage (w : PageWalk) (j : Nat) : PageWalk :=
  if ctx.sameBlockCountPerPage then
    let updated := w.pageMap.updateAsAllCountedIf j ctx.fullPagesBlockCountMax
    { w with
      pageMap := updated.2
      rangeTracker := w.rangeTracker.processNextPage ctx.page updated.1 }
  else
    let blocks := ctx.blocksPerPage w.prevPageBoundary w.currentBoundary
    let updated := w.pageMap.updateAsAllCountedIf j blocks.1
    { pageMap := updated.2
      rangeTracker := w.rangeTracker.processNextPage ctx.page updated.1
      prevPageBoundary := w.prevPageBoundary + ctx.page.bytes
      currentBoundary := blocks.2 }

def startWalk (m : RegionPageMap) : PageWalk where
  pageMap := m
  rangeTracker := FreePagesRangeTracker.start
  prevPageBoundary :=
    if 0 < ctx.releasePageOffset then ctx.releasePageOffset <<< pageSizeLog ctx.page else 0
  currentBoundary :=
    if 0 < ctx.releasePageOffset then
      roundUpSlow (ctx.releasePageOffset <<< pageSizeLog ctx.page) ctx.blockSize
    else 0

/-- The ranges that are released, from the release offset on. -/
def releaseFreeMemoryToOS (m : RegionPageMap) : List (Nat × Nat) :=
  let walk := (List.range ctx.pagesCount).foldl ctx.walkPage (ctx.startWalk m)
  (walk.rangeTracker.closeOpenedRange ctx.page).released

end PageReleaseContext

/-- The address and size of every range that `RegionReleaseRecorder` releases. -/
def RegionInfo.releasedRanges {c : PrimaryConfig} (region : RegionInfo c) (allocates : Bool)
    (groups : List BatchGroup) : List (Nat × Nat) :=
  match region.markFreeBlocks allocates groups with
  | none => []
  | some (ctx, m) => (ctx.releaseFreeMemoryToOS m).map fun range =>
    (region.regionBeg + ctx.getReleaseOffset + range.1, range.2 - range.1)

end Scudo.Primary
