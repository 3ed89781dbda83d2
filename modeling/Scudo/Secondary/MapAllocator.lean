import Scudo.SharedArena.Operations
import Scudo.SharedArena.Pool
import Scudo.Secondary.Cache

/-!
`MapAllocator`: a large block comes from a shared arena, from the cache or from a new mapping,
in this order, and is released to where it came from.
-/

namespace Scudo.Secondary
open Scudo.SharedArena

/-- The path of `allocate` that served a request. -/
inductive Source where
  | arena (core : Nat)
  | cache
  | map
  deriving DecidableEq, Repr

/-- The arguments of `allocate`. -/
structure Request where
  opts : Options
  size : Nat
  alignment : Nat
  fill : FillContentsMode

/-- What a call finds outside of the heap of its own process. -/
structure Surroundings where
  pid : Nat
  cpu : Option Nat
  pool : Pool
  /-- The answer of `shouldUseArena`; `pool` is its state after that call. -/
  useArena : Bool
  fillAllocDisabled : Bool
  env : EnvCache
  loads : HeadLoads
  /-- The objects of this process, the shared headers, and the bytes of the arenas. -/
  arenas : Nat → Arena
  arenaMem : Nat → ArenaMemory
  arenaBytes : Nat → UInt8
  /-- The address that `mmap` returns for a reservation of this size. -/
  mmap : Nat → Option Nat
  /-- Whether the pages between the guard pages can be committed. -/
  remap : Bool
  /-- What the header of the block looks like in memory. -/
  headerBytes : Nat → UInt8

/-- A block handed out, where it came from, and the end that the frontend is told. -/
structure Allocation where
  block : LargeBlock
  source : Source
  blockEnd : Nat

namespace LargeBlock

/-- The address that the frontend gets: right behind the header. -/
def ptr (p : Platform) (block : LargeBlock) : Nat :=
  wadd p.word.bits block.headerPos p.word.largeHeaderSize

/-- `getBlockEnd`. -/
def getBlockEnd (p : Platform) (block : LargeBlock) : Nat :=
  wadd p.word.bits block.commitBase block.commitSize

/-- Store the header into the mapping that it describes. -/
def writeHeader (p : Platform) (headerBytes : Nat → UInt8) (block : LargeBlock) : LargeBlock :=
  { block with memMap := { block.memMap with
      bytes := memcpy block.memMap.bytes block.headerPos headerBytes p.word.largeHeaderSize } }

/-- Fill `size` bytes from the pointer of the block on, if so asked. -/
def fillIf (p : Platform) (fill : FillContentsMode) (asked : Bool) (size : Nat)
    (block : LargeBlock) : LargeBlock :=
  { block with memMap := { block.memMap with
      bytes := if asked then memset block.memMap.bytes (block.ptr p) fill.byte size
        else block.memMap.bytes } }

end LargeBlock

/-- Where the reservation of a new mapping lies and which part of it is used. -/
structure Layout where
  memMap : MemMap
  commitBase : Nat
  mapEnd : Nat

/-- The committed part ends a page before the end of the reservation. -/
def Layout.commitSize (p : Platform) (l : Layout) : Nat :=
  wsub p.word.bits (wsub p.word.bits l.mapEnd p.page.bytes) l.commitBase

def Layout.allocPos (p : Platform) (l : Layout) (size alignment : Nat) : Nat :=
  roundDown p.word.bits
    (wsub p.word.bits (wadd p.word.bits l.commitBase (l.commitSize p)) size) alignment

namespace MapAllocator

/-- The block made of a handout. -/
def arenaAllocation (p : Platform) (sur : Surroundings) (req : Request) (core : Nat)
    (out : Handout) : Allocation :=
  let block : LargeBlock :=
    { headerPos := out.entryHeaderPos
      commitBase := out.commitBase
      commitSize := out.commitSize
      arenaOwnerPid := wrap 32 sur.pid
      memMap := ⟨out.commitBase, out.commitSize, sur.arenaBytes⟩ }
  let block := block.writeHeader p sur.headerBytes
  -- the length counts from the pointer of the block, which lies before that of the user
  let block := block.fillIf p req.fill (req.fill != .noFill) req.size
  ⟨block, .arena core, block.getBlockEnd p⟩

/-- The outer `none`: the walk over the free list does not end. The result of `retrieve` is
`none` where no arena was asked. -/
def tryAllocateFromArena (p : Platform) (sur : Surroundings) (req : Request) :
    Option (Option Allocation × Option (Nat × RetrieveResult)) :=
  if req.opts.useMemoryTagging then some (none, none)
  else if sur.pool.isReady = false then some (none, none)
  else if req.fill ≠ .noFill ∧ sur.fillAllocDisabled then some (none, none)
  else
    match sur.pool.getCurrentArena sur.arenas sur.cpu with
    | none => some (none, none)
    | some core =>
      match (sur.arenas core).retrieve sur.env p.page (sur.arenaMem core) sur.loads req.size
          req.alignment p.word.getHeadersSize with
      | none => none
      | some result =>
        some (result.out.map (arenaAllocation p sur req core), some (core, result))

/-- The block made of an entry of the cache. -/
def cacheAllocation (p : Platform) (sur : Surroundings) (req : Request) (entry : CachedBlock)
    (entryHeaderPos : Nat) : Allocation :=
  let zeroed : Bool := entry.time == 0
  let block : LargeBlock :=
    { headerPos := entryHeaderPos
      commitBase := entry.commitBase
      commitSize := entry.commitSize
      arenaOwnerPid := 0
      memMap := entry.memMap }
  let block := block.writeHeader p sur.headerBytes
  let block := block.fillIf p req.fill (req.fill != .noFill && !zeroed)
    (wsub p.word.bits (block.getBlockEnd p) (block.ptr p))
  ⟨block, .cache, block.getBlockEnd p⟩

def tryAllocateFromCache (p : Platform) (sur : Surroundings) (cache : Cache) (req : Request) :
    Option Allocation × Cache :=
  let maxAllowedFragmentedPages :=
    if req.opts.useMemoryTagging then maxUnreleasedCachePages
    else maxUnreleasedCachePages + CachedBlock.maxReleasedCachePages
  match cache.retrieve p maxAllowedFragmentedPages req.size req.alignment
      p.word.getHeadersSize with
  | (none, cache) => (none, cache)
  | (some (entry, entryHeaderPos), cache) =>
    if entry.isValid = false then (none, cache)
    else (some (cacheAllocation p sur req entry entryHeaderPos), cache)

/-- Size of a reservation, without its guard pages. -/
def roundedSize (p : Platform) (size alignment : Nat) : Nat :=
  let rounded := roundUp p.word.bits
    (wadd p.word.bits (roundUp p.word.bits size alignment) p.word.getHeadersSize) p.page.bytes
  if p.page.bytes < alignment then
    wadd p.word.bits rounded (wsub p.word.bits alignment p.page.bytes)
  else rounded

def mapSize (p : Platform) (size alignment : Nat) : Nat :=
  wadd p.word.bits (roundedSize p size alignment) (wrap p.word.bits (2 * p.page.bytes))

/-- `CommitBase` for an alignment of a page or more. -/
def alignedCommitBase (p : Platform) (mapBase alignment : Nat) : Nat :=
  wsub p.word.bits
    (roundUp p.word.bits (wadd p.word.bits (wadd p.word.bits mapBase p.page.bytes) 1) alignment)
    p.page.bytes

/-- `NewMapBase`. -/
def newMapBase (p : Platform) (commitBase : Nat) : Nat := wsub p.word.bits commitBase p.page.bytes

/-- `NewMapEnd`. -/
def newMapEnd (p : Platform) (commitBase size : Nat) : Nat :=
  wadd p.word.bits (wadd p.word.bits (wadd p.word.bits commitBase p.page.bytes)
    (roundUp p.word.bits size p.page.bytes)) p.page.bytes

/-- The start of the reservation is given back, on 32-bit platforms only. -/
def trimFront (p : Platform) (newBase : Nat) (memMap : MemMap) : MemMap :=
  if p.word = .w32 ∧ newBase ≠ memMap.base then
    memMap.unmap p.word memMap.base (wsub p.word.bits newBase memMap.base)
  else memMap

/-- The same for its end, `mapEnd` so far. -/
def trimBack (p : Platform) (newEnd mapEnd : Nat) (memMap : MemMap) : MemMap × Nat :=
  if p.word = .w32 ∧ newEnd ≠ mapEnd then
    (memMap.unmap p.word newEnd (wsub p.word.bits mapEnd newEnd), newEnd)
  else (memMap, mapEnd)

/-- From the reservation at `mapBase` to the part of it that is committed. -/
def layout (p : Platform) (size alignment mapBase : Nat) : Layout :=
  let memMap := MemMap.fresh mapBase (mapSize p size alignment)
  let mapEnd := wadd p.word.bits mapBase (mapSize p size alignment)
  if p.page.bytes ≤ alignment then
    let commitBase := alignedCommitBase p mapBase alignment
    let trimmed := trimBack p (newMapEnd p commitBase size) mapEnd
      (trimFront p (newMapBase p commitBase) memMap)
    ⟨trimmed.1, commitBase, trimmed.2⟩
  else ⟨memMap, wadd p.word.bits mapBase p.page.bytes, mapEnd⟩

/-- The block made of a new mapping. Its pages are zero already. -/
def mapAllocation (p : Platform) (sur : Surroundings) (req : Request) (mapBase : Nat) :
    Allocation :=
  let l := layout p req.size req.alignment mapBase
  let block : LargeBlock :=
    { headerPos := wsub p.word.bits (l.allocPos p req.size req.alignment) p.word.getHeadersSize
      commitBase := l.commitBase
      commitSize := l.commitSize p
      arenaOwnerPid := 0
      memMap := l.memMap }
  let block := block.writeHeader p sur.headerBytes
  ⟨block, .map, block.getBlockEnd p⟩

def allocateFromMap (p : Platform) (sur : Surroundings) (req : Request) : Option Allocation :=
  match sur.mmap (mapSize p req.size req.alignment) with
  | none => none
  | some mapBase => if sur.remap = false then none else some (mapAllocation p sur req mapBase)

/-- The size with the slack, and an alignment of at least the minimum. -/
def adjust (p : Platform) (req : Request) : Request :=
  { req with
    size := if req.opts.addLargeAllocationSlack then
        wadd p.word.bits req.size p.word.minAlignment else req.size
    alignment := max req.alignment p.word.minAlignment }

/-- The paths after the arena. -/
def allocatePrivate (p : Platform) (sur : Surroundings) (cache : Cache) (req : Request) :
    Option Allocation × Cache :=
  let minNeededSizeForCache := roundUp p.word.bits
    (wadd p.word.bits req.size p.word.getHeadersSize) p.page.bytes
  if req.alignment < p.page.bytes ∧ cache.canCache minNeededSizeForCache then
    match tryAllocateFromCache p sur cache req with
    | (some allocation, cache) => (some allocation, cache)
    | (none, cache) => (allocateFromMap p sur req, cache)
  else (allocateFromMap p sur req, cache)

/-- The block with which the cache serves a request, where it does. -/
def cachedBlock (p : Platform) (sur : Surroundings) (cache : Cache) (req : Request) :
    Option Allocation :=
  if req.alignment < p.page.bytes ∧ cache.canCache (roundUp p.word.bits
      (wadd p.word.bits req.size p.word.getHeadersSize) p.page.bytes) then
    (tryAllocateFromCache p sur cache req).1
  else none

/-- `MapAllocator::allocate`: the block, the cache, and what `retrieve` did to an arena. The
outer `none` is that of `tryAllocateFromArena`. -/
def allocate (p : Platform) (sur : Surroundings) (cache : Cache) (req : Request) :
    Option (Option Allocation × Cache × Option (Nat × RetrieveResult)) :=
  let req := adjust p req
  if sur.useArena ∧ req.alignment < p.page.bytes then
    match tryAllocateFromArena p sur req with
    | none => none
    | some (some allocation, result) => some (some allocation, cache, result)
    | some (none, result) =>
      let others := allocatePrivate p sur cache req
      some (others.1, others.2, result)
  else
    let others := allocatePrivate p sur cache req
    some (others.1, others.2, none)

/-- The core and the handout with which an arena serves a request, where it does. -/
def arenaHandout (p : Platform) (sur : Surroundings) (req : Request) : Option (Nat × Handout) :=
  if sur.useArena ∧ req.alignment < p.page.bytes then
    match tryAllocateFromArena p sur req with
    | some (_, some (core, result)) => result.out.map fun out => (core, out)
    | _ => none
  else none

/-- What `deallocate` does with the range of a block once it has left the list. -/
inductive Route where
  | keep
  | store (owner logCore base size : Nat)
  | cache
  | unmap
  deriving DecidableEq, Repr

/-- The decisions of `deallocate`; `canCache` is the answer for the size of the block. -/
def route (pool : Pool) (arenas : Nat → Arena) (pid : Nat) (cpu : Option Nat) (canCache : Bool)
    (block : LargeBlock) : Route :=
  let fullBase := block.memMap.base
  let fullSize := block.memMap.capacity
  if pool.isReady ∧ pool.isArenaAddr fullBase then
    match pool.getOwningArena arenas fullBase with
    | none => .keep
    | some owner =>
      let logCore := (pool.getCurrentArena arenas cpu).getD owner
      -- a block inherited through fork belongs to the process that allocated it
      if block.arenaOwnerPid ≠ wrap 32 pid then .keep
      else .store owner logCore fullBase fullSize
  else if canCache then .cache
  else .unmap

/-- The last step of `deallocate` as far as the cache sees it. -/
def release (p : Platform) (config : CacheConfig) (opts : Options) (now : Nat) (cache : Cache)
    (block : LargeBlock) : Route → Option Cache
  | .cache =>
    match cache.store config opts now block.commitBase block.commitSize (block.ptr p)
        block.memMap with
    | none => none
    | some (cache, _) => some cache
  | _ => some cache

end MapAllocator

end Scudo.Secondary
