import Scudo.SharedArena.Log

/-!
`store` and `retrieve` of one shared arena, run under its lock. A walk of the free list is
given `totalDataPages + 2` steps: its nodes pass the validity test and so lie below
`totalDataPages`, and a longer walk visits one of them twice and never ends. The outer
`Option` of both operations is `none` exactly on such a walk.
-/

namespace Scudo.SharedArena

/-- Where a new block goes, and whether the walk met a block that does not look valid. -/
structure InsertPoint where
  prevOff : Nat
  nextOff : Nat
  corrupt : Bool
  deriving DecidableEq, Repr

namespace ArenaMemory

def walkFuel (m : ArenaMemory) : Nat := m.hdr.totalDataPages + 2

/-- The loop of `store` that looks for the first block past `newPageOff`. -/
def findInsertPoint (m : ArenaMemory) (newPageOff : Nat) : Nat → Nat → Nat → Option InsertPoint
  | 0, _, _ => none
  | fuel + 1, prevOff, nextOff =>
      if nextOff = kFreeListEnd then some ⟨prevOff, nextOff, false⟩
      else if sharedArenaFreeBlockLooksValid (m.getFreeBlock nextOff) nextOff m.hdr.totalDataPages = false
      then some ⟨kFreeListEnd, kFreeListEnd, true⟩
      else if newPageOff < nextOff then some ⟨prevOff, nextOff, false⟩
      else m.findInsertPoint newPageOff fuel nextOff (m.nextPageOff nextOff)

/-- A corrupt list is dropped as a whole. -/
def dropFreeList (m : ArenaMemory) : ArenaMemory := (m.setHead kFreeListEnd).setCount 0

/-- Write the header of the new block and link it to its neighbours. -/
def insertBlock (m : ArenaMemory) (newPageOff newPages prevOff nextOff : Nat) : ArenaMemory :=
  let m := m.setBlock newPageOff ⟨prevOff, nextOff, newPages, kFreeBlockMagic⟩
  let m := if prevOff ≠ kFreeListEnd then m.setNext prevOff newPageOff else m.setHead newPageOff
  let m := if nextOff ≠ kFreeListEnd then m.setPrev nextOff newPageOff else m
  m.setCount (wadd 32 m.hdr.freeCount 1)

/-- The block at `gone` becomes the tail of the block at `kept`, which it touches. -/
def absorb (m : ArenaMemory) (kept gone : Nat) : ArenaMemory :=
  let blk := m.getFreeBlock gone
  let m := m.setSize kept (wadd 32 (m.sizeInPages kept) blk.sizeInPages)
  let m := m.setNext kept blk.nextPageOff
  let m := if blk.nextPageOff ≠ kFreeListEnd then m.setPrev blk.nextPageOff kept else m
  let m := m.setMagic gone 0
  m.setCount (wsub 32 m.hdr.freeCount 1)

/-- Join the new block with the block after it. -/
def mergeNext (m : ArenaMemory) (newPageOff newPages nextOff : Nat) : ArenaMemory :=
  if nextOff ≠ kFreeListEnd ∧ wadd 32 newPageOff newPages = nextOff then m.absorb newPageOff nextOff
  else m

/-- Join the block before the new block with it. -/
def mergePrev (m : ArenaMemory) (newPageOff prevOff : Nat) : ArenaMemory :=
  if prevOff ≠ kFreeListEnd then
    if wadd 32 prevOff (m.sizeInPages prevOff) = newPageOff then m.absorb prevOff newPageOff
    else m
  else m

def countDonation (m : ArenaMemory) (commitSize : Nat) : ArenaMemory :=
  { m with hdr := { m.hdr with
      totalDonatedBytes := m.hdr.totalDonatedBytes + UInt64.ofNat commitSize
      donateCount := m.hdr.donateCount + 1 } }

def countRetrieval (m : ArenaMemory) (allocSize : Nat) : ArenaMemory :=
  { m with hdr := { m.hdr with
      totalRetrievedBytes := m.hdr.totalRetrievedBytes + UInt64.ofNat allocSize
      retrieveCount := m.hdr.retrieveCount + 1 } }

def uncountRetrieval (m : ArenaMemory) (allocSize : Nat) : ArenaMemory :=
  { m with hdr := { m.hdr with
      totalRetrievedBytes := m.hdr.totalRetrievedBytes - UInt64.ofNat allocSize
      retrieveCount := m.hdr.retrieveCount - 1 } }

/-- The part of `store` between the log append and the statistics. -/
def insertFree (m : ArenaMemory) (newPageOff newPages : Nat) : Option ArenaMemory :=
  match m.findInsertPoint newPageOff m.walkFuel kFreeListEnd m.hdr.freeListHeadPageOff with
  | none => none
  | some point =>
      let m := if point.corrupt then m.dropFreeList else m
      let m := m.insertBlock newPageOff newPages point.prevOff point.nextOff
      let m := m.mergeNext newPageOff newPages point.nextOff
      some (m.mergePrev newPageOff point.prevOff)

end ArenaMemory

/-- Result of `store`: the returned flag, the shared memory, the object of the arena whose
ring took the entry, and that entry. -/
structure StoreResult where
  ok : Bool
  mem : ArenaMemory
  logArena : Arena
  written : Option SharedArenaLogEntry

namespace Arena

/-- The range check of `store`. -/
def validRange (page : PageSize) (arena : Arena) (m : ArenaMemory) (commitBase commitSize : Nat) :
    Bool :=
  let newPageOff := arena.addrToPageOff page commitBase
  let newPages := wrap 32 (commitSize / page.bytes)
  isAligned commitBase page.bytes && isAligned commitSize page.bytes &&
    decide (newPageOff < m.hdr.totalDataPages) && decide (newPages ≠ 0) &&
    decide (newPages ≤ m.hdr.totalDataPages - newPageOff)

/-- `logArena` is `none` for a null pointer. -/
def store (env : EnvCache) (page : PageSize) (arena : Arena) (logArena : Option Arena)
    (m : ArenaMemory) (loads : HeadLoads) (commitBase commitSize : Nat) : Option StoreResult :=
  let log := logArena.getD arena
  if arena.initialized = false ∨ commitSize = 0 then some ⟨false, m, log, none⟩
  else if arena.validRange page m commitBase commitSize = false then some ⟨false, m, log, none⟩
  else
    let newPageOff := arena.addrToPageOff page commitBase
    let newPages := wrap 32 (commitSize / page.bytes)
    let appended := log.appendLogPagesLocked env page loads .free (wrap 8 arena.coreId) newPageOff
      commitSize 0
    if appended.ok = false then some ⟨false, m, appended.arena, appended.written⟩
    else if env.disableFreelist then
      some ⟨true, m.countDonation commitSize, appended.arena, appended.written⟩
    else
      match m.insertFree newPageOff newPages with
      | none => none
      | some m => some ⟨true, m.countDonation commitSize, appended.arena, appended.written⟩

end Arena

/-- Outcome of the best-fit scan. -/
structure BestFit where
  off : Nat
  corrupt : Bool
  deriving DecidableEq, Repr

namespace ArenaMemory

/-- The best-fit loop of `retrieve`. -/
def bestFitScan (m : ArenaMemory) (neededPages : Nat) : Nat → Nat → Nat → Nat → Option BestFit
  | 0, _, _, _ => none
  | fuel + 1, cur, bestOff, bestPages =>
      if cur = kFreeListEnd then some ⟨bestOff, false⟩
      else
        let blk := m.getFreeBlock cur
        if sharedArenaFreeBlockLooksValid blk cur m.hdr.totalDataPages = false then
          some ⟨kFreeListEnd, true⟩
        else if blk.magic = kFreeBlockMagic ∧ neededPages ≤ blk.sizeInPages ∧
            blk.sizeInPages < bestPages then
          if blk.sizeInPages = neededPages then some ⟨cur, false⟩
          else m.bestFitScan neededPages fuel blk.nextPageOff cur blk.sizeInPages
        else m.bestFitScan neededPages fuel blk.nextPageOff bestOff bestPages

/-- Phase 1 of `retrieve`: scan, and drop the list when it is corrupt. -/
def findBestFit (env : EnvCache) (m : ArenaMemory) (neededPages : Nat) :
    Option (Nat × ArenaMemory) :=
  if env.disableFreelist = false ∧ m.hdr.freeCount ≠ 0 then
    match m.bestFitScan neededPages m.walkFuel m.hdr.freeListHeadPageOff kFreeListEnd 0xFFFFFFFF with
    | none => none
    | some best => some (best.off, if best.corrupt then m.dropFreeList else m)
  else some (kFreeListEnd, m)

/-- Unlink a block that fits exactly. -/
def unlinkBlock (m : ArenaMemory) (bestOff : Nat) : ArenaMemory :=
  let best := m.getFreeBlock bestOff
  let m := if best.prevPageOff ≠ kFreeListEnd then m.setNext best.prevPageOff best.nextPageOff
    else m.setHead best.nextPageOff
  let m := if best.nextPageOff ≠ kFreeListEnd then m.setPrev best.nextPageOff best.prevPageOff
    else m
  let m := m.setMagic bestOff 0
  m.setCount (wsub 32 m.hdr.freeCount 1)

/-- Put a block that was taken whole back between its old neighbours. -/
def relinkBlock (m : ArenaMemory) (bestOff : Nat) : ArenaMemory :=
  let m := m.setMagic bestOff kFreeBlockMagic
  let best := m.getFreeBlock bestOff
  let m := if best.prevPageOff ≠ kFreeListEnd then m.setNext best.prevPageOff bestOff
    else m.setHead bestOff
  let m := if best.nextPageOff ≠ kFreeListEnd then m.setPrev best.nextPageOff bestOff else m
  m.setCount (wadd 32 m.hdr.freeCount 1)

end ArenaMemory

/-- Memory and base address after pages have been set aside. -/
structure Taken where
  mem : ArenaMemory
  allocBase : Nat

/-- The three values that a successful `retrieve` returns. -/
structure Handout where
  commitBase : Nat
  commitSize : Nat
  entryHeaderPos : Nat
  deriving DecidableEq, Repr

/-- Result of `retrieve`: its out-parameters on success, the shared memory, the object of
the arena, and the log entry. -/
structure RetrieveResult where
  out : Option Handout
  mem : ArenaMemory
  arena : Arena
  written : Option SharedArenaLogEntry

namespace Arena

/-- Take the best free block whole or cut its tail off; `allocBase` stays 0 without one. -/
def takeFree (page : PageSize) (arena : Arena) (m : ArenaMemory) (bestOff neededPages : Nat) :
    Taken :=
  if bestOff ≠ kFreeListEnd then
    let remainder := wsub 32 (m.sizeInPages bestOff) neededPages
    if remainder = 0 then ⟨m.unlinkBlock bestOff, arena.pageOffToAddr page bestOff⟩
    else ⟨m.setSize bestOff remainder, arena.pageOffToAddr page (wadd 32 bestOff remainder)⟩
  else ⟨m, 0⟩

/-- Phase 2: advance the bump pointer. -/
def takeBump (page : PageSize) (arena : Arena) (m : ArenaMemory) (neededPages : Nat) :
    Option Taken :=
  let bumpOff := m.hdr.bumpOffsetInPages
  if m.hdr.totalDataPages < wadd 32 bumpOff neededPages then none
  else some ⟨m.setBump (wadd 32 bumpOff neededPages), arena.pageOffToAddr page bumpOff⟩

def takePages (page : PageSize) (arena : Arena) (m : ArenaMemory) (bestOff neededPages : Nat) :
    Option Taken :=
  let taken := arena.takeFree page m bestOff neededPages
  if taken.allocBase = 0 then arena.takeBump page taken.mem neededPages else some taken

/-- Undo of `takePages` when the ring has no room for the entry. -/
def untakePages (page : PageSize) (arena : Arena) (m : ArenaMemory)
    (bestOff neededPages allocBase : Nat) : ArenaMemory :=
  if bestOff ≠ kFreeListEnd then
    if allocBase = arena.pageOffToAddr page bestOff then m.relinkBlock bestOff
    else m.setSize bestOff (wadd 32 (m.sizeInPages bestOff) neededPages)
  else m.setBump (wsub 32 m.hdr.bumpOffsetInPages neededPages)

def neededSize (page : PageSize) (size headersSize : Nat) : Nat :=
  roundUp 64 (wadd 64 size headersSize) page.bytes

def neededPages (page : PageSize) (size headersSize : Nat) : Nat :=
  wrap 32 (neededSize page size headersSize / page.bytes)

/-- Where the user part of a block starts. -/
def allocPosOf (allocBase allocSize size alignment : Nat) : Nat :=
  roundDown 64 (wsub 64 (wadd 64 allocBase allocSize) size) alignment

def retrieve (env : EnvCache) (page : PageSize) (arena : Arena) (m : ArenaMemory)
    (loads : HeadLoads) (size alignment headersSize : Nat) : Option RetrieveResult :=
  if arena.initialized = false then some ⟨none, m, arena, none⟩
  else
    let allocSize := neededSize page size headersSize
    let needed := neededPages page size headersSize
    match m.findBestFit env needed with
    | none => none
    | some (bestOff, m) =>
      match arena.takePages page m bestOff needed with
      | none => some ⟨none, m, arena, none⟩
      | some taken =>
        let allocPos := allocPosOf taken.allocBase allocSize size alignment
        let headerPos := wsub 64 allocPos headersSize
        if headerPos < taken.allocBase ∨ wadd 64 taken.allocBase allocSize < allocPos then
          -- this exit keeps the pages that were taken above
          some ⟨none, taken.mem, arena, none⟩
        else
          let m := taken.mem.countRetrieval allocSize
          let appended := arena.appendLogLocked env page loads .alloc taken.allocBase allocSize 0
          if appended.ok = false then
            let m := arena.untakePages page m bestOff needed taken.allocBase
            some ⟨none, m.uncountRetrieval allocSize, appended.arena, appended.written⟩
          else
            some ⟨some ⟨taken.allocBase, allocSize, headerPos⟩, m, appended.arena,
              appended.written⟩

end Arena

end Scudo.SharedArena
