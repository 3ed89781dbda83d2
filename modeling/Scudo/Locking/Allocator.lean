import Scudo.Locking.Primary

/-!
The locks that the operations of `Allocator` take, with those of the TSD registries, the quarantine,
the secondary and the ring buffer.
-/

namespace Scudo.Locking
open Scudo.Lib SharedArena Primary Allocator64 AllocatorLock

/-- `TSDRegistryExT`, and `TSDRegistrySharedT`. -/
inductive RegistryKind where
  | exclusive
  | shared
  deriving DecidableEq, Repr

/-- The parts of an `Allocator`, with the class of quarantine batches. An exclusive registry has the
`FallbackTSD` only. -/
structure Config (n t : Nat) [NeZero n] where
  primary : BlockConfig n
  registry : RegistryKind
  exclusive_one : registry = .exclusive → t = 1
  quarantineClassId : Fin n
  quarantineClassId_ne : quarantineClassId ≠ 0

variable {n t : Nat} [NeZero n] [NeZero t] (c : Config n t)

/-- Where a check fails, the report does not return. -/
def report : LockPlan n t Unit := do
  let failed ← .choose Bool
  if failed then .stop else pure ()

/-- The class of a chunk of the primary. -/
def chunkClassId : LockPlan n t { I : Fin n // I ≠ 0 } :=
  .branch ⟨⟨c.quarantineClassId, c.quarantineClassId_ne⟩⟩ .done

section Cache

def cacheAllocate (I : Fin n) : LockPlan n t (Option Nat) :=
  locks (Allocator64.allocate c.primary (batchClass c.primary) I)

def cacheDeallocate (I : Fin n) : LockPlan n t Bool :=
  locks (Allocator64.deallocate c.primary (batchClass c.primary) I 0)

/-- `GlobalStats::link` and `unlink`. -/
def link : LockPlan n t Unit := .withLock stats (pure ())

/-- `destroy` of a cache. -/
def cacheDestroy : LockPlan n t Unit := do
  locks (Allocator64.drain c.primary)
  link

end Cache

namespace GlobalQuarantine

/-- `enqueue`, which may need a new batch. -/
def enqueue : LockPlan n t Unit := do
  let full ← .choose Bool
  if full then
    match ← cacheAllocate c c.quarantineClassId with
    | none => .stop
    | some _ => pure ()
  else pure ()

/-- `QuarantineCallback::recycle`. -/
def recycleChunk : LockPlan n t Unit := do
  report
  let I ← chunkClassId c
  let _ ← cacheDeallocate c I
  return

def doRecycle : LockPlan n t Unit :=
  .loop do
    .loop (recycleChunk c)
    report
    let _ ← cacheDeallocate c c.quarantineClassId
    return

/-- The caller has taken `RecycleMutex`, which is given back here. -/
def recycle : LockPlan n t Unit := do
  .withLock cacheMutex (pure ())
  .unlock recycleMutex
  doRecycle c

def drain : LockPlan n t Unit := do
  let needRecycle ← .withLock cacheMutex (.choose Bool)
  if needRecycle then
    let locked ← .attempt recycleMutex
    if locked then recycle c else pure ()
  else pure ()

def drainAndRecycle : LockPlan n t Unit := do
  .withLock cacheMutex (pure ())
  .lock recycleMutex
  recycle c

def put : LockPlan n t Unit := do
  enqueue c
  let large ← .choose Bool
  if large then drain c else pure ()

def getStats : LockPlan n t Unit := .withLock cacheMutex (pure ())

def disable : LockPlan n t Unit := do
  .lock recycleMutex
  .lock cacheMutex

def enable : LockPlan n t Unit := do
  .unlock cacheMutex
  .unlock recycleMutex

end GlobalQuarantine

namespace MapAllocatorCache

def releaseOlderThan : LockPlan n t Unit := .withLock secondaryCacheMutex (pure ())

/-- An entry that fills a free slot of the quarantine returns at once. -/
def store : LockPlan n t Unit := do
  let stored ← .withLock secondaryCacheMutex (.choose Bool)
  if stored then return
  else
    let releases ← .choose Bool
    if releases then releaseOlderThan else pure ()

/-- Whether an entry is found. -/
def retrieve : LockPlan n t Bool := .withLock secondaryCacheMutex (.choose Bool)

def getStats : LockPlan n t Unit := .withLock secondaryCacheMutex (pure ())

def disableMemoryTagging : LockPlan n t Unit := .withLock secondaryCacheMutex (pure ())

end MapAllocatorCache

instance : Nonempty RetrieveBranches := ⟨⟨true, true, true, true⟩⟩

instance : Nonempty StoreBranches := ⟨⟨true, true, true, true⟩⟩

namespace MapAllocator

/-- The block goes to the list of the blocks in use. -/
def insertInUse : LockPlan n t Unit := .withLock secondaryMutex (pure ())

def tryAllocateFromArena : LockPlan n t Bool := do
  let ready ← .choose Bool
  if ready then
    let core ← .choose CoreId
    let branches ← .choose RetrieveBranches
    .ofOps arena (retrieveLocks core branches)
    if branches.initialized && branches.pages && branches.fits && branches.logged then
      insertInUse
      return true
    else return false
  else return false

def tryAllocateFromCache : LockPlan n t Bool := do
  let found ← MapAllocatorCache.retrieve
  if found then
    insertInUse
    return true
  else return false

def allocateFromMap : LockPlan n t Bool := do
  let mapped ← .choose Bool
  if mapped then
    insertInUse
    return true
  else return false

/-- `allocate` behind the arenas. -/
def allocateFromCacheOrMap : LockPlan n t Bool := do
  let canCache ← .choose Bool
  if canCache then
    if ← tryAllocateFromCache then return true else allocateFromMap
  else allocateFromMap

def allocate : LockPlan n t Bool := do
  let shouldUseArena ← .choose Bool
  if shouldUseArena then
    if ← tryAllocateFromArena then return true else allocateFromCacheOrMap
  else allocateFromCacheOrMap

def deallocate : LockPlan n t Unit := do
  .withLock secondaryMutex (pure ())
  let isArenaAddr ← .choose Bool
  if isArenaAddr then
    -- the owner may be missing, and a block of another process is not given back
    let returns ← .choose Bool
    if returns then
      let core ← .choose CoreId
      let logArena ← .choose (Option CoreId)
      let branches ← .choose StoreBranches
      .ofOps arena (storeLocks core logArena branches)
    else return
  else
    let canCache ← .choose Bool
    if canCache then MapAllocatorCache.store else return

def releaseToOS : LockPlan n t Unit := MapAllocatorCache.releaseOlderThan

def getStats : LockPlan n t Unit := .withLock secondaryMutex MapAllocatorCache.getStats

def disable : LockPlan n t Unit := do
  .lock secondaryMutex
  .lock secondaryCacheMutex

def enable : LockPlan n t Unit := do
  .unlock secondaryCacheMutex
  .unlock secondaryMutex

def iterateOverBlocks : LockPlan n t Unit := .assertHeld [secondaryMutex]

end MapAllocator

/-- `commitBack` of a TSD. -/
def commitBack : LockPlan n t Unit := do
  GlobalQuarantine.drain c
  cacheDestroy c

def drainCache : LockPlan n t Unit := do
  GlobalQuarantine.drainAndRecycle c
  locks (Allocator64.drain c.primary)

namespace TSDRegistry

def setNumberOfTSDs : LockPlan n t Unit := .withLock mutexTSDs (pure ())

/-- `init` of the registry, with `init` of the allocator, which links the statistics of the secondary, and
of the TSDs, each of which links those of its cache. -/
def init : LockPlan n t Unit := do
  link
  match c.registry with
  | .exclusive => link
  | .shared =>
    .forEach (fun _ => link) (List.finRange t)
    setNumberOfTSDs

def initOnceMaybe : LockPlan n t Unit :=
  .withLock registryMutex do
    let initialized ← .choose Bool
    if initialized then return else init c

def initThread (minimalInit : Bool) : LockPlan n t Unit := do
  initOnceMaybe c
  match c.registry with
  | .exclusive => if minimalInit then pure () else link
  | .shared => pure ()

def initThreadMaybe (minimalInit : Bool) : LockPlan n t Unit := do
  let initialized ← .choose Bool
  if initialized then return else initThread c minimalInit

/-- At most this many TSDs are tried. -/
def tryTSDs : Nat → LockPlan n t (Option (Fin t))
  | 0 => pure none
  | tries + 1 => do
    let index ← .choose (Fin t)
    let locked ← .attempt (tsd index)
    if locked then return some index else tryTSDs tries

def lockTSD (index : Fin t) : LockPlan n t (Option (Fin t)) := do
  .lock (tsd index)
  return some index

def getTSDAndLockSlow (currentTSD : Fin t) : LockPlan n t (Option (Fin t)) := do
  .withLock mutexTSDs (pure ())
  let several ← .choose Bool
  if several then
    match ← tryTSDs 4 with
    | some index => return some index
    | none =>
      match ← .choose (Option (Fin t)) with
      | some candidateTSD => lockTSD candidateTSD
      | none => lockTSD currentTSD
  else lockTSD currentTSD

/-- The TSD whose lock is taken; none where a thread uses its own. -/
def getTSDAndLock : LockPlan n t (Option (Fin t)) :=
  match c.registry with
  | .exclusive => do
    let own ← .choose Bool
    if own then return none else lockTSD 0
  | .shared => do
    let currentTSD ← .choose (Fin t)
    let locked ← .attempt (tsd currentTSD)
    if locked then return some currentTSD
    else if t = 1 then lockTSD currentTSD
    else getTSDAndLockSlow currentTSD

/-- `ScopedTSD`, with the assertion that its accesses make. -/
def scopedTSD {β : Type} (body : LockPlan n t β) : LockPlan n t β := do
  match ← getTSDAndLock c with
  | none => body
  | some index =>
    .assertHeld [tsd index]
    let result ← body
    .unlock (tsd index)
    return result

/-- The first `NumberOfTSDs` TSDs. -/
def eachTSD (body : LockPlan n t Unit) : LockPlan n t Unit :=
  .withLock mutexTSDs do
    let numberOfTSDs ← .choose Nat
    .forEach (fun index => .withLock (tsd index) body) ((List.finRange t).take numberOfTSDs)

def drainCaches : LockPlan n t Unit :=
  match c.registry with
  | .exclusive => do
    drainCache c
    .withLock (tsd 0) (drainCache c)
  | .shared => eachTSD (drainCache c)

def getStats : LockPlan n t Unit :=
  match c.registry with
  | .exclusive => pure ()
  | .shared => eachTSD (pure ())

/-- The TSDs that `disable` locks. -/
def disabledTSDs (registry : RegistryKind) : List (Fin t) :=
  match registry with
  | .exclusive => [0]
  | .shared => List.finRange t

def disable : LockPlan n t Unit := do
  .lock registryMutex
  .forEach (fun index => .lock (tsd index)) (disabledTSDs c.registry)

def enable : LockPlan n t Unit := do
  .forEach (fun index => .unlock (tsd index)) (disabledTSDs c.registry).reverse
  .unlock registryMutex

end TSDRegistry

namespace Allocator
open TSDRegistry

/-- `StackDepot::insert`. -/
def insert : LockPlan n t Unit := do
  let there ← .choose Bool
  if there then return else .withLock ringEndMu (pure ())

/-- The stores of stack traces, which depend on an option and on the ring buffer. -/
def storeStackMaybe : LockPlan n t Unit := do
  let tracks ← .choose Bool
  if tracks then insert else return

/-- `allocate` of each class from the first one on that has a block. -/
def allocateUpwards : List (Fin n) → LockPlan n t Bool
  | [] => pure false
  | I :: rest => do
    let block ← cacheAllocate c I
    if block.isSome then return true else allocateUpwards rest

/-- The block of `allocate`, from the primary or the secondary. -/
def allocateBlock : LockPlan n t Bool := do
  let canAllocate ← .choose Bool
  if canAllocate then
    let first ← chunkClassId c
    let found ← scopedTSD c (allocateUpwards c ((List.finRange n).filter fun I => first.1 ≤ I))
    if found then return true else MapAllocator.allocate
  else MapAllocator.allocate

def getStats : LockPlan n t Unit := do
  Regions.getStats
  MapAllocator.getStats
  GlobalQuarantine.getStats
  TSDRegistry.getStats c

/-- Whether a pointer is returned. -/
def allocate : LockPlan n t Bool := do
  initThreadMaybe c false
  let rejected ← .choose Bool
  if rejected then
    report
    return false
  else if ← allocateBlock c then
    storeStackMaybe
    return true
  else
    let mayReturnNull ← .choose Bool
    if mayReturnNull then return false
    else
      -- `printStats`, before `reportOutOfMemory`
      getStats c
      .stop

def quarantineOrDeallocateChunk : LockPlan n t Unit := do
  -- in `retagBlock`
  storeStackMaybe
  let bypassQuarantine ← .choose Bool
  if bypassQuarantine then
    let inPrimary ← .choose Bool
    if inPrimary then
      let I ← chunkClassId c
      let cacheDrained ← scopedTSD c (cacheDeallocate c I)
      if cacheDrained then tryReleaseToOS c.primary I else return
    else MapAllocator.deallocate
  else scopedTSD c (GlobalQuarantine.put c)

def deallocate : LockPlan n t Unit := do
  let null ← .choose Bool
  if null then return
  else
    initThreadMaybe c true
    report
    quarantineOrDeallocateChunk c

def reallocate : LockPlan n t Unit := do
  initThreadMaybe c false
  report
  let inPlace ← .choose Bool
  if inPlace then storeStackMaybe
  else if ← allocate c then quarantineOrDeallocateChunk c
  else return

def releaseToOS (forceAll : Bool) : LockPlan n t Unit := do
  initThreadMaybe c false
  if forceAll then drainCaches c else pure ()
  Regions.releaseToOS c.primary
  MapAllocator.releaseToOS

def setOption (maxTSDsCount : Bool) : LockPlan n t Unit := do
  initThreadMaybe c false
  match c.registry with
  | .exclusive => return
  | .shared => if maxTSDsCount then setNumberOfTSDs else return

/-- `getStats` of the counters. -/
def getStatCounters : LockPlan n t Unit := do
  initThreadMaybe c false
  .withLock stats (pure ())

/-- `initRingBufferMaybe` is called only where the options ask for it. -/
def setTrackAllocationStacks : LockPlan n t Unit := do
  initThreadMaybe c false
  let tracks ← .choose Bool
  if tracks then .withLock ringBufferInitLock (pure ()) else return

def disableMemoryTagging : LockPlan n t Unit := do
  initOnceMaybe c
  MapAllocatorCache.disableMemoryTagging

/-- Whether there is a ring buffer, and with it a depot. -/
def disableRingBuffer : LockPlan n t Bool := do
  .lock ringBufferInitLock
  let depot ← .choose Bool
  if depot then
    .lock ringEndMu
    return true
  else return false

def enableRingBuffer (depot : Bool) : LockPlan n t Unit := do
  if depot then .unlock ringEndMu else pure ()
  .unlock ringBufferInitLock

def disable : LockPlan n t Bool := do
  initThreadMaybe c false
  TSDRegistry.disable c
  .lock stats
  GlobalQuarantine.disable
  Regions.disable
  MapAllocator.disable
  disableRingBuffer

/-- The thread is initialised since `disable`. -/
def enable (depot : Bool) : LockPlan n t Unit := do
  enableRingBuffer depot
  MapAllocator.enable
  Regions.enable
  GlobalQuarantine.enable
  .unlock stats
  TSDRegistry.enable c

/-- Between `disable` and `enable`. -/
def iterateOverChunks : LockPlan n t Unit := do
  Regions.iterateOverBlocks
  MapAllocator.iterateOverBlocks

/-- The locks that a thread has after `disable` of the registry, and after the whole `disable`, the last
one first. -/
def registryLocks : List (AllocatorLock n t) :=
  ((disabledTSDs c.registry).map tsd).reverse ++ [registryMutex]

def disabledLocks (depot : Bool) : List (AllocatorLock n t) :=
  (if depot then [ringEndMu] else []) ++ ringBufferInitLock :: secondaryCacheMutex ::
    secondaryMutex :: (allRegionLocks n t ++ cacheMutex :: recycleMutex :: stats :: registryLocks c)

/-- `malloc_disable` and `malloc_enable` with calls of `malloc_iterate` and `fork` in between. The check
stands for `fork`. Threads call the two in this way only. -/
def whileDisabled : LockPlan n t Unit := do
  let depot ← disable c
  .loop iterateOverChunks
  .assertHeld (disabledLocks c depot)
  enable c depot

/-- What the threads of the process call, and what those of other processes do with the arenas. -/
inductive Call (c : Config n t) : LockPlan n t Unit → Prop
  | allocate : Call c do
      let _ ← allocate c
      return
  | deallocate : Call c (deallocate c)
  | reallocate : Call c (reallocate c)
  | releaseToOS (forceAll : Bool) : Call c (releaseToOS c forceAll)
  | drainCaches : Call c (drainCaches c)
  | setOption (maxTSDsCount : Bool) : Call c (setOption c maxTSDsCount)
  | getStats : Call c (getStats c)
  | getStatCounters : Call c (getStatCounters c)
  | printFragmentationInfo : Call c (getFragmentationInfo c.primary)
  | getMemoryGroupFragmentationInfo : Call c (getMemoryGroupFragmentationInfo c.primary)
  | initThreadMaybe (minimalInit : Bool) : Call c (initThreadMaybe c minimalInit)
  | setTrackAllocationStacks : Call c (setTrackAllocationStacks c)
  | disableMemoryTagging : Call c (disableMemoryTagging c)
  | secondaryCacheStats : Call c MapAllocatorCache.getStats
  | teardownThread (exclusive : c.registry = .exclusive) : Call c (commitBack c)
  | whileDisabled : Call c (whileDisabled c)
  | otherProcess (ops : List (LockOp CoreId)) (program : ArenaProgram ops) : Call c (.ofOps arena ops)

end Allocator

end Scudo.Locking
