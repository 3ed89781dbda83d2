import Scudo.Secondary.Types

/-!
`MapAllocatorCache`: recently freed mappings kept in LRU order, newest first, and behind them
the quarantine that is used with memory tagging. Slots of the entry array are not modelled: the
list holds the entries that are in use.
-/

namespace Scudo.Secondary

/-- The parameters of the cache that are fixed when it is compiled. -/
structure CacheConfig where
  entriesArraySize : Nat
  quarantineSize : Nat
  defaultMaxEntriesCount : Nat
  defaultMaxEntrySize : Nat
  minReleaseToOsIntervalMs : Int
  maxReleaseToOsIntervalMs : Int
  defaultReleaseToOsIntervalMs : Int
  deriving DecidableEq, Repr

structure Cache where
  quarantinePos : Nat
  quarantine : List CachedBlock
  maxEntriesCount : Nat
  maxEntrySize : Nat
  oldestTime : Nat
  releaseToOsIntervalMs : Int
  callsToRetrieve : UInt32
  successfulRetrieves : UInt32
  lruEntries : List CachedBlock

inductive CacheOption where
  | releaseInterval
  | maxCacheEntriesCount
  | maxCacheEntrySize
  deriving DecidableEq, Repr

/-- The entry that the scan of `retrieve` has chosen so far: its place in the list, where the
header of the block would go, and `MinDiff`. -/
structure Candidate where
  index : Nat
  headerPos : Nat
  diff : Nat
  deriving DecidableEq, Repr

namespace CachedBlock

/-- The end of the commit range. -/
def stop (p : Platform) (entry : CachedBlock) : Nat :=
  wadd p.word.bits entry.commitBase entry.commitSize

/-- Where the user part of a request would start in this entry. -/
def allocPos (p : Platform) (entry : CachedBlock) (size alignment : Nat) : Nat :=
  roundDown p.word.bits (wsub p.word.bits (entry.stop p) size) alignment

def headerPos (p : Platform) (entry : CachedBlock) (size alignment headersSize : Nat) : Nat :=
  wsub p.word.bits (entry.allocPos p size alignment) headersSize

/-- The two tests of `retrieve` after which it continues with the next entry. -/
def unsuitable (p : Platform) (entry : CachedBlock)
    (maxAllowedFragmentedPages size alignment headersSize : Nat) : Bool :=
  decide (entry.stop p < entry.headerPos p size alignment headersSize) ||
    (decide (entry.headerPos p size alignment headersSize < entry.commitBase) ||
      decide (wadd p.word.bits entry.commitBase
          (wrap p.word.bits (maxAllowedFragmentedPages * p.page.bytes)) <
        entry.allocPos p size alignment))

/-- Unused bytes in front of the page of the header. -/
def fragmentedBytes (p : Platform) (entry : CachedBlock) (headerPos : Nat) : Nat :=
  wsub p.word.bits (roundDown p.word.bits headerPos p.page.bytes) entry.commitBase

/-- The release of the first pages of a chosen entry, unless they are released already. -/
def releaseFragment (p : Platform) (entry : CachedBlock) (headerPos : Nat) : CachedBlock :=
  let fragmentedBytes := entry.fragmentedBytes p headerPos
  let maxUnreleasedCacheBytes := wrap p.word.bits (maxUnreleasedCachePages * p.page.bytes)
  if entry.time ≠ 0 ∧ maxUnreleasedCacheBytes < fragmentedBytes then
    let maxReleasedCacheBytes := wrap p.word.bits (maxReleasedCachePages * p.page.bytes)
    let bytesToRelease := roundUp p.word.bits
      (min maxReleasedCacheBytes (fragmentedBytes - maxUnreleasedCacheBytes)) p.page.bytes
    { entry with
      memMap := entry.memMap.releaseAndZeroPagesToOS entry.commitBase bytesToRelease }
  else entry

/-- `releaseIfOlderThan`, with `OldestTime` passed through. -/
def releaseIfOlderThan (entry : CachedBlock) (time oldestTime : Nat) : CachedBlock × Nat :=
  if entry.isValid = false ∨ entry.time = 0 then (entry, oldestTime)
  else if time < entry.time then
    (entry, if oldestTime = 0 ∨ entry.time < oldestTime then entry.time else oldestTime)
  else
    ({ entry with
      memMap := entry.memMap.releaseAndZeroPagesToOS entry.commitBase entry.commitSize
      time := 0 }, oldestTime)

end CachedBlock

namespace Cache

def canCache (cache : Cache) (size : Nat) : Bool :=
  cache.maxEntriesCount != 0 && decide (size ≤ cache.maxEntrySize)

/-- `MinDiff`. -/
def minDiff (p : Platform) : Option Candidate → Nat
  | none => 2 ^ p.word.bits - 1
  | some candidate => candidate.diff

/-- The loop of `retrieve` over the entries from number `index` on. -/
def scan (p : Platform) (maxAllowedFragmentedPages size alignment headersSize : Nat) :
    List CachedBlock → Nat → Option Candidate → Option Candidate
  | [], _, best => best
  | entry :: rest, index, best =>
    if entry.unsuitable p maxAllowedFragmentedPages size alignment headersSize then
      scan p maxAllowedFragmentedPages size alignment headersSize rest (index + 1) best
    else
      let headerPos := entry.headerPos p size alignment headersSize
      let diff := entry.fragmentedBytes p headerPos
      if minDiff p best ≤ diff then
        scan p maxAllowedFragmentedPages size alignment headersSize rest (index + 1) best
      else if diff ≤ wsub p.word.bits (entry.stop p) headerPos / 10 then
        some ⟨index, headerPos, diff⟩
      else
        scan p maxAllowedFragmentedPages size alignment headersSize rest (index + 1)
          (some ⟨index, headerPos, diff⟩)

/-- The entry taken out of the cache and `EntryHeaderPos`. -/
def retrieve (p : Platform) (cache : Cache)
    (maxAllowedFragmentedPages size alignment headersSize : Nat) :
    Option (CachedBlock × Nat) × Cache :=
  let cache := { cache with callsToRetrieve := cache.callsToRetrieve + 1 }
  match scan p maxAllowedFragmentedPages size alignment headersSize cache.lruEntries 0 none with
  | none => (none, cache)
  | some candidate =>
    match cache.lruEntries[candidate.index]? with
    | none => (none, cache)
    | some entry =>
      (some (entry.releaseFragment p candidate.headerPos, candidate.headerPos),
        { cache with
          lruEntries := cache.lruEntries.eraseIdx candidate.index
          successfulRetrieves := cache.successfulRetrieves + 1 })

/-- `OldestTime` is set by the first entry that has a time. -/
def noteTime (cache : Cache) (time : Nat) : Cache :=
  if cache.oldestTime = 0 then { cache with oldestTime := time } else cache

def releaseAll (time : Nat) : List CachedBlock → Nat → List CachedBlock × Nat
  | [], oldestTime => ([], oldestTime)
  | entry :: rest, oldestTime =>
    let first := entry.releaseIfOlderThan time oldestTime
    let others := releaseAll time rest first.2
    (first.1 :: others.1, others.2)

def releaseOlderThan (cache : Cache) (time : Nat) : Cache :=
  if cache.lruEntries = [] ∨ cache.oldestTime = 0 ∨ time < cache.oldestTime then cache
  else
    let quarantine := releaseAll time cache.quarantine 0
    let entries := releaseAll time cache.lruEntries quarantine.2
    { cache with
      quarantine := quarantine.1, lruEntries := entries.1, oldestTime := entries.2 }

def releaseToOS (cache : Cache) : Cache := cache.releaseOlderThan (2 ^ 64 - 1)

/-- Swap the entry into the quarantine; what was in its place goes on to the cache. -/
def quarantineEntry (config : CacheConfig) (cache : Cache) (entry : CachedBlock) :
    Cache × Option CachedBlock :=
  let pos := wadd 32 cache.quarantinePos 1 % max config.quarantineSize 1
  let previous := cache.quarantine.getD pos CachedBlock.empty
  let cache := { cache with quarantinePos := pos, quarantine := cache.quarantine.set pos entry }
  if previous.isValid then (cache.noteTime entry.time, some previous) else (cache, none)

/-- The eviction loop, from the oldest entry on. It does not survive an empty list. -/
def evict (maxEntriesCount : Nat) : List CachedBlock → Option (List CachedBlock × List MemMap)
  | [] => if maxEntriesCount = 0 then none else some ([], [])
  | oldest :: rest =>
    if maxEntriesCount ≤ rest.length + 1 then
      match evict maxEntriesCount rest with
      | none => none
      | some (kept, evicted) => some (kept, oldest.memMap :: evicted)
    else some (oldest :: rest, [])

/-- The release that ends `store`. -/
def releaseAfterStore (cache : Cache) (interval : Int) (time : Nat) : Cache :=
  if 0 ≤ interval then
    cache.releaseOlderThan (wsub 64 time (wrap 64 (interval.toNat * 1000000)))
  else cache

/-- The entry as `store` builds it. With memory tagging and no interval to wait for, its range
is mapped anew. -/
def storedEntry (opts : Options) (interval : Int) (now commitBase commitSize blockBegin : Nat)
    (memMap : MemMap) : CachedBlock :=
  if opts.useMemoryTagging ∧ interval = 0 then
    { commitBase := commitBase, commitSize := commitSize, blockBegin := blockBegin, time := 0
      memMap := memMap.releaseAndZeroPagesToOS commitBase commitSize }
  else
    { commitBase := commitBase, commitSize := commitSize, blockBegin := blockBegin, time := now
      memMap := memMap }

/-- `store` at the clock value `now`: the cache after it and the mappings that it unmaps, `none`
where the eviction loop fails. -/
def store (config : CacheConfig) (opts : Options) (now : Nat) (cache : Cache)
    (commitBase commitSize blockBegin : Nat) (memMap : MemMap) : Option (Cache × List MemMap) :=
  let interval := cache.releaseToOsIntervalMs
  let entry := storedEntry opts interval now commitBase commitSize blockBegin memMap
  if opts.useMemoryTagging ∧ cache.quarantinePos = 2 ^ 32 - 1 then
    some (cache.releaseAfterStore interval now, [entry.memMap])
  else
    match if config.quarantineSize ≠ 0 ∧ opts.useMemoryTagging then
        cache.quarantineEntry config entry else (cache, some entry) with
    | (cache, none) => some (cache, [])
    | (cache, some entry) =>
      match evict cache.maxEntriesCount cache.lruEntries.reverse with
      | none => none
      | some (kept, evicted) =>
        some (({ cache with lruEntries := entry :: kept.reverse }.noteTime
          entry.time).releaseAfterStore interval now, evicted)

/-- The casts of `value` to `s32`, `u32` and `uptr` keep its low bits. -/
def setOption (config : CacheConfig) (p : Platform) (cache : Cache) (o : CacheOption)
    (value : Int) : Bool × Cache :=
  match o with
  | .releaseInterval =>
    (true, { cache with
      releaseToOsIntervalMs := max (min (value.bmod (2 ^ 32)) config.maxReleaseToOsIntervalMs)
        config.minReleaseToOsIntervalMs })
  | .maxCacheEntriesCount =>
    if value < 0 then (false, cache)
    else (true, { cache with
      maxEntriesCount := min (wrap 32 value.toNat) config.entriesArraySize })
  | .maxCacheEntrySize =>
    (true, { cache with maxEntrySize := (value.emod (2 ^ p.word.bits)).toNat })

/-- The mappings that are unmapped are those of the quarantine. -/
def disableMemoryTagging (cache : Cache) : Cache × List MemMap :=
  ({ cache with
    quarantine := cache.quarantine.map fun entry =>
      if entry.isValid then entry.invalidate else entry
    quarantinePos := 2 ^ 32 - 1 },
    (cache.quarantine.filter CachedBlock.isValid).map CachedBlock.memMap)

/-- An empty cache with the default options. -/
def init (config : CacheConfig) (releaseToOsInterval : Int) : Cache where
  quarantinePos := 0
  quarantine := List.replicate config.quarantineSize CachedBlock.empty
  maxEntriesCount := min config.defaultMaxEntriesCount config.entriesArraySize
  maxEntrySize := config.defaultMaxEntrySize
  oldestTime := 0
  releaseToOsIntervalMs :=
    max (min (if config.defaultReleaseToOsIntervalMs ≠ -2 ^ 31 then
        config.defaultReleaseToOsIntervalMs else releaseToOsInterval)
      config.maxReleaseToOsIntervalMs) config.minReleaseToOsIntervalMs
  callsToRetrieve := 0
  successfulRetrieves := 0
  lruEntries := []

end Cache

end Scudo.Secondary
