import Scudo.Common

/-!
Data of one per-core shared arena: the header and the intrusive free-block headers that
every process maps, and the process-local object with its log ring.
-/

namespace Scudo.SharedArena

def kSharedArenaBaseAddr : Nat := 0x200000000000
def kArenaCapacityPerCore : Nat := 512 * 1024 * 1024
def kArenaMaxCores : Nat := 16
def kArenaHeaderSize : Nat := 4096
def kFreeListEnd : Nat := 0xFFFFFFFF
def kFreeBlockMagic : Nat := 0xF4EEB10C
def kLogRingMagic : Nat := 0x4d44524c
def kLogRingVersion : Nat := 1

/-- `sizeof(SharedArenaLogRing)` and `sizeof(SharedArenaLogEntry)`. -/
def kLogRingHeaderBytes : Nat := 36
def kLogEntryBytes : Nat := 12

/-- Written into the first bytes of every free block. -/
structure FreeBlockHeader where
  prevPageOff : Nat
  nextPageOff : Nat
  sizeInPages : Nat
  magic : Nat
  deriving DecidableEq, Repr

/-- The metadata page of one arena. The spin lock and the version word are not part of
this record: an operation is one step taken under the lock. -/
structure SharedArenaHeader where
  bumpOffsetInPages : Nat
  totalDataPages : Nat
  freeListHeadPageOff : Nat
  freeCount : Nat
  totalDonatedBytes : UInt64
  totalRetrievedBytes : UInt64
  donateCount : UInt32
  retrieveCount : UInt32
  deriving DecidableEq, Repr

/-- What all processes share: the header, and the four words at the start of every data
page, where a free block keeps its own header. -/
@[ext] structure ArenaMemory where
  hdr : SharedArenaHeader
  prevPageOff : Nat → Nat
  nextPageOff : Nat → Nat
  sizeInPages : Nat → Nat
  magic : Nat → Nat

inductive SharedArenaLogOp where
  | alloc
  | free
  deriving DecidableEq, Repr

structure SharedArenaLogEntry where
  op : SharedArenaLogOp
  srcCpu : Nat
  flags : Nat
  startPage : Nat
  numPages : Nat
  deriving DecidableEq, Repr

/-- A slot of `entries` that no append has written yet is `none`. -/
structure SharedArenaLogRing where
  magic : Nat
  version : Nat
  flags : Nat
  capacity : Nat
  arenaNrPages : Nat
  ringSize : Nat
  head : Nat
  tail : Nat
  dropped : Nat
  entries : Nat → Option SharedArenaLogEntry

/-- The process-local object of one arena. -/
structure Arena where
  initialized : Bool
  coreId : Nat
  baseAddr : Nat
  dataBase : Nat
  logRing : SharedArenaLogRing
  logHeadCache : Nat
  logTailCache : Nat
  logCapacityCache : Nat
  logCapacityMask : Nat

/-- The environment variables that change what retrieve and store do, read once in each
process. -/
structure EnvCache where
  allowNoKernel : Bool
  disableFreelist : Bool
  deriving DecidableEq, Repr

def baseAddrOf (coreId : Nat) : Nat := kSharedArenaBaseAddr + coreId * kArenaCapacityPerCore

def dataBaseOf (coreId : Nat) : Nat := baseAddrOf coreId + kArenaHeaderSize

def totalDataPagesOf (page : PageSize) : Nat :=
  (kArenaCapacityPerCore - kArenaHeaderSize) / page.bytes

/-- The header that the first initialiser writes. -/
def initialHeader (page : PageSize) : SharedArenaHeader where
  bumpOffsetInPages := 0
  totalDataPages := totalDataPagesOf page
  freeListHeadPageOff := kFreeListEnd
  freeCount := 0
  totalDonatedBytes := 0
  totalRetrievedBytes := 0
  donateCount := 0
  retrieveCount := 0

namespace Arena

def pageOffToAddr (page : PageSize) (arena : Arena) (pageOff : Nat) : Nat :=
  wadd 64 arena.dataBase (pageOff * page.bytes)

def addrToPageOff (page : PageSize) (arena : Arena) (addr : Nat) : Nat :=
  wrap 32 (wsub 64 addr arena.dataBase / page.bytes)

end Arena

namespace ArenaMemory

def getFreeBlock (m : ArenaMemory) (off : Nat) : FreeBlockHeader :=
  ⟨m.prevPageOff off, m.nextPageOff off, m.sizeInPages off, m.magic off⟩

def setPrev (m : ArenaMemory) (off value : Nat) : ArenaMemory :=
  { m with prevPageOff := Function.update m.prevPageOff off value }

def setNext (m : ArenaMemory) (off value : Nat) : ArenaMemory :=
  { m with nextPageOff := Function.update m.nextPageOff off value }

def setSize (m : ArenaMemory) (off value : Nat) : ArenaMemory :=
  { m with sizeInPages := Function.update m.sizeInPages off value }

def setMagic (m : ArenaMemory) (off value : Nat) : ArenaMemory :=
  { m with magic := Function.update m.magic off value }

/-- Write a whole block header. -/
def setBlock (m : ArenaMemory) (off : Nat) (blk : FreeBlockHeader) : ArenaMemory :=
  (((m.setPrev off blk.prevPageOff).setNext off blk.nextPageOff).setSize off
    blk.sizeInPages).setMagic off blk.magic

def setHead (m : ArenaMemory) (value : Nat) : ArenaMemory :=
  { m with hdr := { m.hdr with freeListHeadPageOff := value } }

def setCount (m : ArenaMemory) (value : Nat) : ArenaMemory :=
  { m with hdr := { m.hdr with freeCount := value } }

def setBump (m : ArenaMemory) (value : Nat) : ArenaMemory :=
  { m with hdr := { m.hdr with bumpOffsetInPages := value } }

end ArenaMemory

def sharedArenaFreeBlockLooksValid (blk : FreeBlockHeader) (pageOff totalDataPages : Nat) : Bool :=
  if blk.magic ≠ kFreeBlockMagic ∨ blk.sizeInPages = 0 then false
  else if totalDataPages ≤ pageOff ∨ totalDataPages - pageOff < blk.sizeInPages then false
  else if blk.prevPageOff ≠ kFreeListEnd ∧ totalDataPages ≤ blk.prevPageOff then false
  else if blk.nextPageOff ≠ kFreeListEnd ∧ totalDataPages ≤ blk.nextPageOff then false
  else true

end Scudo.SharedArena
