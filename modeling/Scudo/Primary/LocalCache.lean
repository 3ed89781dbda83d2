import Mathlib.Data.Fintype.Sum
import Mathlib.Tactic.DeriveFintype
import Scudo.Lib.Guarded
import Scudo.Primary.FreeLists

/-!
`SizeClassAllocatorLocalCache` and the operations of `SizeClassAllocator64` that it calls, as programs
that take the locks of the regions where the source does. What lies between two locks is seen by no
other thread.
-/

namespace Scudo.Primary.Allocator64
open Scudo.Lib.Guarded

inductive Lock (n : Nat) where
  | flLock (I : Fin n)
  | mmLock (I : Fin n)
  deriving DecidableEq, Fintype, Repr

abbrev Resource {n : Nat} : Lock n → Type
  | .flLock _ => FreeListInfo
  | .mmLock _ => MemMapInfo

/-- What a thread has: `Chunks[0..Count)` of its cache for each class, the groups whose pages it is
releasing, and the blocks in its hands: arguments, results, arrays, and nodes that are in no list. The
slots that `drain` pushes are in its hands from then on. `flushed` is only a record: the arrays that
`mergeGroupsToReleaseBack` has passed to `pushBatchClassBlocks`. -/
structure Locals (n : Nat) where
  chunks : Fin n → List Nat
  groupsToRelease : List GroupNode
  releaseClass : Fin n
  hand : Fin n → Multiset Nat
  flushed : List (List Nat)

/-- What is decided outside: whether a mapping succeeds and a page release is worth while, how a
`shuffle` turns out, which groups are released, and how often a thread waits. -/
structure Outside where
  succeeds : Bool
  shuffle : List Nat → List Nat
  shuffle_perm : ∀ array, (shuffle array).Perm array
  releases : GroupNode → Bool
  rounds : Nat

abbrev Run (n : Nat) (α : Type) := Prog (Locals n) (Resource (n := n)) Outside α

/-- `getBatchClassBlock`, and `deallocate` of the batch class. -/
structure BatchClass (n : Nat) where
  getBatchClassBlock : Run n Nat
  deallocate : Nat → Run n Unit

variable {n : Nat} [NeZero n] (c : BlockConfig n)

namespace Locals

def give (own : Locals n) (I : Fin n) (blocks : Multiset Nat) : Locals n :=
  { own with hand := own.hand + Pi.single I blocks }

def take (own : Locals n) (I : Fin n) (blocks : Multiset Nat) : Locals n :=
  { own with hand := own.hand - Pi.single I blocks }

def setChunks (own : Locals n) (I : Fin n) (chunks : List Nat) : Locals n :=
  { own with chunks := Function.update own.chunks I chunks }

end Locals

/-- An action on the free list of a region. -/
def onList {α : Type} (I : Fin n) (f : Locals n → List GroupNode → (Locals n × List GroupNode) × α) :
    Run n α :=
  .under (.flLock I) fun _ own info =>
    let result := f own info.blockList
    ((result.1.1, { info with blockList := result.1.2 }), result.2)

section FreeList

variable (ops : BatchClass n) (I : Fin n)

/-- `C->deallocate(BatchClassId, ...)` of a node, if there is one. -/
def deallocateNode : Option Nat → Run n Unit
  | none => pure ()
  | some node => ops.deallocate node

def popBlocksImpl (maxBlockCount : Nat) : Run n (List Nat) :=
  if I = 0 then
    onList 0 fun own groups =>
      let popped := popBatchClass (n := n) maxBlockCount groups
      ((own.give 0 popped.2, popped.1), popped.2)
  else do
    let (blocks, unlinked) ← onList I fun own groups =>
      let popped := popFront I maxBlockCount groups
      (((own.give I popped.2.1).give 0 (ofNode popped.2.2), popped.1), popped.2)
    if unlinked.isSome then
      deallocateNode ops unlinked
      let group ← onList I fun own groups =>
        let dropped := dropEmptyGroup groups
        ((own.give 0 (ofNode dropped.2), dropped.1), dropped.2)
      deallocateNode ops group
      return blocks
    else return blocks

/-- `UnusedSlots` in `InsertBlocks`, with a new front batch where the old one is full. -/
def makeRoom (cur : Nat) : Run n Nat := do
  let slots ← onList I fun own groups => ((own, groups), unusedSlots groups cur)
  if slots = 0 then
    let tb ← ops.getBatchClassBlock
    onList I fun own groups =>
      let groups := pushFrontBatch groups cur tb
      ((own.take 0 {tb}, groups), unusedSlots groups cur)
  else return slots

/-- `InsertBlocks` of `pushBlocksImpl`, with a bound on the rounds of its loop. -/
def insertBlocks (cur : Nat) : Nat → List Nat → Run n Unit
  | _, [] => pure ()
  | 0, _ => .fault
  | fuel + 1, array => do
    let slots ← makeRoom ops I cur
    let appendSize := min slots array.length
    onList I fun own groups =>
      ((own.take I (array.take appendSize), appendFromArray groups cur (array.take appendSize)), ())
    insertBlocks cur fuel (array.drop appendSize)

/-- `Cur` advanced to the group of the blocks that are pushed next, which is created where there is
none. `prev` tells that `Prev` must not be null. -/
def findGroup (prev : Bool) (cur base : Nat) : Run n Nat := do
  let (next, found) ← onList I fun own groups =>
    let next := advance groups cur base
    ((own, groups), (next, groups[next]?.map GroupNode.compactPtrGroupBase == some base))
  if found then return next
  else if prev && next == 0 then .fault
  else
    let bg ← ops.getBatchClassBlock
    let tb ← ops.getBatchClassBlock
    onList I fun own groups => ((own.take 0 ({bg} + {tb}), createGroup c groups next base bg tb), ())
    return next

/-- The segments behind the first one. -/
def pushSegments (cur : Nat) : List (List Nat) → Run n Unit
  | [] => pure ()
  | segment :: rest => do
    let next ← findGroup c ops I true cur (c.compactPtrGroup (segment.headD 0))
    insertBlocks ops I next segment.length segment
    pushSegments next rest

/-- `Array[0]` has to be there. -/
def pushBlocksImpl (array : List Nat) (same : Bool) : Run n Unit :=
  if array = [] then .fault else do
  let cur ← findGroup c ops I false 0 (c.compactPtrGroup (array.headD 0))
  if same then insertBlocks ops I cur array.length array
  else match segments c array with
    | [] => .fault
    | segment :: rest =>
      insertBlocks ops I cur segment.length segment
      pushSegments c ops I cur rest

/-- `pushBatchClassBlocks`, under the lock of the batch class. `Array[Size - 1]` has to be there. -/
def pushBatchClass (array : List Nat) : Run n Unit :=
  if array = [] then .fault
  else onList 0 fun own groups => ((own.take 0 array, pushBatchClassBlocks c array groups), ())

def pushBlocks (array : List Nat) : Run n Unit := do
  if I = 0 then
    .acquire (.flLock 0)
    pushBatchClass c array
    .release (.flLock 0)
  else
    let sorts := decide (c.groupSizeLog < c.regionSizeLog)
    .acquire (.flLock I)
    pushBlocksImpl c ops I (if sorts then sortByGroup c array else array)
      (if sorts then sameGroup c array else true)
    .release (.flLock I)

end FreeList

section Populate

variable (ops : BatchClass n) (I : Fin n)

def onPages {α : Type} (f : Outside → MemMapInfo → MemMapInfo × α) : Run n α :=
  .under (.mmLock I) fun o own info => ((own, (f o info).1), (f o info).2)

/-- `populateFreeListAndPopBlocks` up to the mapping: whether the region is there. -/
def reserveRegion : Run n Bool :=
  onPages I fun o info =>
    if !c.contiguousRegions && !info.isAllocated then
      if o.succeeds then ({ info with isAllocated := true }, true) else (info, false)
    else (info, true)

/-- Maps more space, if necessary. -/
def mapMore : Run n Bool :=
  onPages I fun o info =>
    let size := c.getSizeByClassId I
    let totalUserBytes := info.allocatedUser + c.getMaxCached size * size
    if totalUserBytes > info.mappedUser then
      let mapSize := roundUp 64 (totalUserBytes - info.mappedUser) c.mapSizeIncrement
      if c.regionBase I + info.mappedUser + mapSize > c.regionSize then
        ({ info with exhausted := true }, false)
      else if o.succeeds then ({ info with mappedUser := info.mappedUser + mapSize }, true)
      else (info, false)
    else (info, true)

/-- The new blocks, in `ShuffleArray`. -/
def fillArray : Run n (List Nat) :=
  .under (.mmLock I) fun _ own info =>
    let size := c.getSizeByClassId I
    let numberOfBlocks := min (c.maxNumBatches * c.getMaxCached size)
      (wrap 32 ((info.mappedUser - info.allocatedUser) / size))
    let array := (List.range numberOfBlocks).map fun k =>
      c.compactPtrInternal (c.regionBeg I) (c.regionBeg I + info.allocatedUser + k * size)
    ((own.give I array, { info with numberOfBlocks := numberOfBlocks }), array)

def commit : Run n Unit :=
  onPages I fun _ info =>
    let allocatedUser := c.getSizeByClassId I * info.numberOfBlocks
    ({ info with allocatedUser := info.allocatedUser + allocatedUser, numberOfBlocks := 0 }, ())

/-- Each group's part of `ShuffleArray` is shuffled and pushed. -/
def pushShuffled : List (List Nat) → Run n Unit
  | [] => pure ()
  | segment :: rest => do
    let o ← .choose
    pushBlocksImpl c ops I (o.shuffle segment) true
    pushShuffled rest

/-- `ShuffleArray[0]` has to be there. -/
def pushNewBlocks (array : List Nat) : Run n Unit :=
  if array = [] then .fault
  else if I = 0 then pushBatchClass c array
  else pushShuffled c ops I (segments c array)

def populateFreeListAndPopBlocks (maxBlockCount : Nat) : Run n (List Nat) := do
  if !(← reserveRegion c I) then return []
  else if !(← mapMore c I) then return []
  else
    let array ← fillArray c I
    .acquire (.flLock I)
    pushNewBlocks c ops I array
    let blocks ← popBlocksImpl ops I maxBlockCount
    commit c I
    .release (.flLock I)
    return blocks

/-- The call of `populateFreeListAndPopBlocks` under `MMLock` with the test of `Exhausted`: the blocks,
and whether the region is exhausted since then. -/
def populate (maxBlockCount : Nat) : Run n (List Nat × Bool) := do
  let regionIsExhausted ← onPages I fun _ info => (info, info.exhausted)
  if regionIsExhausted then return ([], false)
  else
    let blocks ← populateFreeListAndPopBlocks c ops I maxBlockCount
    let exhausted ← onPages I fun _ info => (info, info.exhausted)
    return (blocks, exhausted)

def setPopulating (isPopulating : Bool) : Run n Unit :=
  .under (.flLock I) fun _ own info => ((own, { info with isPopulatingFreeList := isPopulating }), ())

def isPopulating : Run n Bool :=
  .under (.flLock I) fun _ own info => ((own, info), info.isPopulatingFreeList)

/-- `popBlocksWithCV`, with a bound on the rounds of its loop: a thread that waits longer than the run
lasts does not return. -/
def popBlocksWithCV (maxBlockCount : Nat) : Nat → Run n (List Nat × Bool)
  | 0 => .stop
  | rounds + 1 => do
    .acquire (.flLock I)
    let populating ← isPopulating I
    if !populating then
      setPopulating I true
      .release (.flLock I)
      .acquire (.mmLock I)
      let result ← populate c ops I maxBlockCount
      .acquire (.flLock I)
      setPopulating I false
      .release (.flLock I)
      .release (.mmLock I)
      return result
    else
      .release (.flLock I)
      .acquire (.flLock I)
      let blocks ← popBlocksImpl ops I maxBlockCount
      if blocks ≠ [] then
        .release (.flLock I)
        return (blocks, false)
      else if !(← isPopulating I) then
        .release (.flLock I)
        popBlocksWithCV maxBlockCount rounds
      else
        -- `FLLockCV.wait` releases the lock and takes it again.
        .release (.flLock I)
        .acquire (.flLock I)
        let blocks ← popBlocksImpl ops I maxBlockCount
        .release (.flLock I)
        if blocks ≠ [] then return (blocks, false)
        else popBlocksWithCV maxBlockCount rounds

/-- The second part of `popBlocks`, where the free list was empty. -/
def popBlocksOrPopulate (maxBlockCount : Nat) : Run n (List Nat × Bool) := do
  if c.conditionVariable then
    let o ← .choose
    popBlocksWithCV c ops I maxBlockCount o.rounds
  else
    .acquire (.mmLock I)
    .acquire (.flLock I)
    let blocks ← popBlocksImpl ops I maxBlockCount
    .release (.flLock I)
    if blocks ≠ [] then
      .release (.mmLock I)
      return (blocks, false)
    else
      let result ← populate c ops I maxBlockCount
      .release (.mmLock I)
      return result

def popBlocks (maxBlockCount : Nat) : Run n (List Nat) := do
  .acquire (.flLock I)
  let blocks ← popBlocksImpl ops I maxBlockCount
  .release (.flLock I)
  if blocks ≠ [] then return blocks
  else
    let (blocks, reportRegionExhausted) ← popBlocksOrPopulate c ops I maxBlockCount
    -- `reportOutOfBatchClass` does not return.
    if reportRegionExhausted ∧ I = 0 then .stop else return blocks

end Populate

section Cache

variable (ops : BatchClass n) (I : Fin n)

def count : Run n Nat := .locally fun _ own => (own, (own.chunks I).length)

/-- `popBlocks` writes to the slots of an empty class, and `Count` is raised then. -/
def refill (maxRefill : Nat) : Run n Bool := do
  let blocks ← popBlocks c ops I maxRefill
  .locally fun _ own => ((own.take I blocks).setChunks I (own.chunks I ++ blocks), blocks ≠ [])

/-- `Chunks[--Count]`. -/
def popChunk : Run n (Option Nat) :=
  .locally fun _ own =>
    match (own.chunks I).getLast? with
    | none => (own, none)
    | some block => ((own.setChunks I (own.chunks I).dropLast).give I {block}, some block)

def allocate : Run n (Option Nat) := do
  let count ← count I
  if count ≠ 0 then
    popChunk I
  else if ← refill c ops I (c.maxCount I / 2) then
    popChunk I
  else return none

/-- The slots that `drain` pushes. -/
def takeChunks : Run n (List Nat) :=
  .locally fun _ own =>
    let count := min (c.maxCount I / 2) (own.chunks I).length
    ((own.setChunks I ((own.chunks I).drop count)).give I ((own.chunks I).take count),
      (own.chunks I).take count)

/-- `drain` of one class. -/
def drainClass : Run n Unit := do
  let array ← takeChunks c I
  pushBlocks c ops I array

def storeChunk (block : Nat) : Run n Unit :=
  .locally fun _ own => ((own.take I {block}).setChunks I (own.chunks I ++ [block]), ())

def deallocate (block : Nat) : Run n Bool := do
  let count ← count I
  if count = c.maxCount I then
    drainClass c ops I
    storeChunk I block
    return true
  else
    storeChunk I block
    return false

/-- The `while` loop of `drain` for one class, with a bound on its rounds. -/
def drainAll : Nat → Run n Unit
  | 0 => .fault
  | fuel + 1 => do
    let count ← count I
    if count = 0 then pure ()
    else
      drainClass c ops I
      drainAll fuel

def drainLoop : Run n Unit := do
  let count ← count I
  drainAll c ops I (count + 1)

def drainClasses : List (Fin n) → Run n Unit
  | [] => pure ()
  | I :: rest => do
    drainLoop c ops I
    drainClasses rest

end Cache

/-- The batch class needs no blocks of the batch class. -/
def noBatchClass : BatchClass n where
  getBatchClassBlock := .fault
  deallocate _ := .fault

/-- Without a block `getBatchClassBlock` ends in `reportOutOfMemory`. -/
def batchClass : BatchClass n where
  getBatchClassBlock := do
    match ← allocate c noBatchClass 0 with
    | none => .stop
    | some block => return block
  deallocate block := do
    let _ ← deallocate c noBatchClass 0 block
    return

/-- The batch class is drained last. -/
def drain : Run n Unit := do
  drainClasses c (batchClass c) ((List.finRange n).filter fun I => I ≠ 0)
  drainLoop c (batchClass c) 0

section Release

variable (I : Fin n)

def noteFlush (blocks : List Nat) : Run n Unit :=
  .locally fun _ own => ({ own with flushed := own.flushed ++ [blocks] }, ())

/-- The flush of `Blocks` in `mergeGroupsToReleaseBack`. -/
def flush (blocks : List Nat) : Run n Unit := do
  noteFlush blocks
  .acquire (.flLock 0)
  pushBatchClass c blocks
  .release (.flLock 0)

/-- The blocks that are left at the end. -/
def flushLast (blocks : List Nat) : Run n Unit := if blocks = [] then pure () else flush c blocks

def maxUnusedSize : Nat := 8

/-- The loop of `mergeGroupsToReleaseBack`, with a bound on its rounds. `Blocks` has room for
`MaxUnusedSize` blocks only. -/
def mergeLoop (cur : Nat) (blocks : List Nat) : Nat → Run n (List Nat)
  | 0 => .fault
  | fuel + 1 => if blocks.length > maxUnusedSize then .fault else do
    let round ← onList I fun own groups =>
      let round := mergeRound groups cur own.groupsToRelease
      (({ own with groupsToRelease := round.groupsToRelease }.give 0 round.unused, round.blockList),
        round)
    match round.next with
    | none => return blocks
    | some next =>
      if blocks.length + round.unused.length > maxUnusedSize then
        flush c blocks
        mergeLoop next round.unused fuel
      else mergeLoop next (blocks ++ round.unused) fuel

/-- What `mergeGroupsToReleaseBack` does under the lock of the list. -/
def mergeLocked : Run n Unit := do
  let rounds ← onList I fun own groups => ((own, groups), groups.length + own.groupsToRelease.length)
  let blocks ← mergeLoop c I 0 [] (rounds + 1)
  flushLast c blocks

def mergeGroupsToReleaseBack : Run n Unit := do
  .acquire (.flLock I)
  mergeLocked c I
  .release (.flLock I)

/-- The groups are merged back once their pages are released, if there are any. -/
def releaseGroups (nothing : Bool) : Run n Unit :=
  if nothing then pure () else mergeGroupsToReleaseBack c I

/-- `tryReleaseToOS` and `releaseToOS` for a class other than the batch class, with `releaseToOSMaybe`.
The groups that are chosen are out of the list while their pages are released. -/
def releaseToOS : Run n Unit := do
  .acquire (.mmLock I)
  .acquire (.flLock I)
  let o ← .choose
  let nothing ← onList I fun own groups =>
    if o.succeeds then
      (({ own with groupsToRelease := groups.filter o.releases, releaseClass := I },
        groups.filter fun group => !o.releases group), (groups.filter o.releases).isEmpty)
    else ((own, groups), true)
  .release (.flLock I)
  releaseGroups c I nothing
  .release (.mmLock I)

end Release

end Scudo.Primary.Allocator64
