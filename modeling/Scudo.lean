import Scudo.Lib.Span
import Scudo.Lib.Linked
import Scudo.SharedArena.Operations
import Scudo.Lib.Extents
import Scudo.SharedArena.FreeList
import Scudo.SharedArena.StoreSpec
import Scudo.SharedArena.RetrieveSpec
import Scudo.SharedArena.Outcome
import Scudo.Lib.Ledger
import Scudo.Lib.Transition
import Scudo.SharedArena.System
import Scudo.SharedArena.Ownership
import Scudo.SharedArena.Delegation
import Scudo.SharedArena.Atomicity
import Scudo.SharedArena.Ring
import Scudo.Secondary.Cache
import Scudo.Secondary.MapAllocator
import Scudo.Secondary.MapLayout
import Scudo.Secondary.CacheSpec
import Scudo.SharedArena.Handouts
import Scudo.Secondary.Heap
import Scudo.Secondary.Geometry
import Scudo.Combined.Allocator
import Scudo.Combined.Placement
import Scudo.Combined.ZeroFill
import Scudo.Combined.SizeRoundTrip
import Scudo.Secondary.Routing
import Scudo.Secondary.ForkedLists
import Scudo.Lib.Threads
import Scudo.Sync.HybridMutex
import Scudo.Lib.LockOrder
import Scudo.SharedArena.Locks
import Scudo.SharedArena.FreeListRuns
import Scudo.Lib.Tally
import Scudo.Quarantine.Cache
import Scudo.Quarantine.CacheSpec
import Scudo.Secondary.Accounting
import Scudo.Quarantine.Global
import Scudo.Quarantine.Conservation
import Scudo.Secondary.Slots
import Scudo.Secondary.SlotRuns
import Scudo.Primary.Refill
import Scudo.Lib.Packed
import Scudo.Lib.Tiling
import Scudo.Primary.PageMap
import Scudo.Primary.PageRelease
import Scudo.Primary.PageCounts
import Scudo.Primary.PageWalk
import Scudo.Primary.PageMarking
import Scudo.Primary.PageReleaseSpec
import Scudo.Primary.PageReleaseSound
import Scudo.ErrorInfo.Buffers
import Scudo.ErrorInfo.NearestBlock
import Scudo.ErrorInfo.StackDepot
import Scudo.ErrorInfo.ErrorInfo
import Scudo.ErrorInfo.Tolerance
import Scudo.Lib.Guarded
import Scudo.Primary.FreeListBlocks
import Scudo.Primary.LocalCache
import Scudo.Primary.FreeListShape
import Scudo.Primary.GroupMerge
import Scudo.SharedArena.Handshake
import Scudo.SharedArena.BestFit
import Scudo.SharedArena.PageGrid
import Scudo.Secondary.CacheSearch
import Scudo.Secondary.CacheThreads
import Scudo.Secondary.Eviction
import Scudo.Secondary.OldestTime
import Scudo.Secondary.ReleaseAge
import Scudo.Secondary.EvictedMaps
import Scudo.Primary.PageReleaseExact
import Scudo.Primary.RangeMarking
import Scudo.Primary.FreeListSafe
import Scudo.Primary.PushSafe
import Scudo.Primary.PopulateSafe
import Scudo.Primary.CacheSafe
import Scudo.Primary.ReleaseSafe
import Scudo.Primary.BlockRuns
import Scudo.Primary.BlockPlaces
import Scudo.Primary.GroupShape
import Scudo.Lib.SignificantBits
import Scudo.Primary.SizeClassOrder
import Scudo.Combined.ClassRetry
import Scudo.Lib.CyclicWalk
import Scudo.Sync.SharedRegistry
import Scudo.Chunk.Checksum
import Scudo.Chunk.Header
import Scudo.NumberFormat
import Scudo.Primary.Regions32
import Scudo.Flags.Parser
import Scudo.Flags.Items
import Scudo.Flags.Strings
import Scudo.Lib.RingLog
import Scudo.StackDepot
import Scudo.Chunk.Memory
import Scudo.Frontend.StoredChunk
import Scudo.Frontend.Held
import Scudo.Frontend.Placement
import Scudo.Frontend.Tenants
import Scudo.Frontend.Runs
import Scudo.Frontend.Contents
import Scudo.Release.RegionPageMap
import Scudo.Release.Geometry
import Scudo.Release.CounterRuns
import Scudo.Release.OneRegion
import Scudo.Intrusive.Links
import Scudo.Intrusive.Lists
import Scudo.Intrusive.Doubly
import Scudo.Intrusive.Singly
import Scudo.Intrusive.Runs
import Scudo.Lib.LockPlans
import Scudo.Locking.Allocator
import Scudo.Locking.Forks
import Scudo.Lib.AtomicWord
import Scudo.Sync.Options
import Scudo.Lib.MemoryTags
import Scudo.Tagging.Blocks
import Scudo.Tagging.Lifecycle
import Scudo.Tagging.Runs
import Scudo.ErrorInfo.Reports
import Scudo.ErrorInfo.RingBuffer
import Scudo.ErrorInfo.RingInit
import Scudo.Tagging.Faults
