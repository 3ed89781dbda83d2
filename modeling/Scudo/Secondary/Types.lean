import Scudo.Common

/-!
Data of the secondary allocator: the constants of the platform, mappings with the bytes
behind them, and the headers of large blocks in use and in the cache.
-/

namespace Scudo.Secondary

/-- `SCUDO_WORDSIZE`. -/
inductive WordSize where
  | w32
  | w64
  deriving DecidableEq, Repr

namespace WordSize

def bits : WordSize → Nat
  | w32 => 32
  | w64 => 64

/-- `1 << SCUDO_MIN_ALIGNMENT_LOG`. -/
def minAlignment : WordSize → Nat
  | w32 => 8
  | w64 => 16

def maxAllowedMallocSize : WordSize → Nat
  | w32 => 2 ^ 31
  | w64 => 2 ^ 40

/-- `Chunk::getHeaderSize`: the packed header has eight bytes. -/
def chunkHeaderSize (word : WordSize) : Nat := roundUp word.bits 8 word.minAlignment

/-- `LargeBlock::getHeaderSize`: four words, two `u32` and the two words of the mapping. -/
def largeHeaderSize (word : WordSize) : Nat :=
  roundUp word.bits (6 * (word.bits / 8) + 8) word.minAlignment

def getHeadersSize (word : WordSize) : Nat := word.chunkHeaderSize + word.largeHeaderSize

end WordSize

/-- `1 << MaxAlignmentLog`. -/
def maxAlignment : Nat := 2 ^ 24

/-- What the code is compiled and started for. -/
structure Platform where
  word : WordSize
  page : PageSize

namespace Platform

def linux64 : Platform := ⟨.w64, PageSize.small⟩

def linux32 : Platform := ⟨.w32, PageSize.small⟩

end Platform

inductive FillContentsMode where
  | noFill
  | zeroFill
  | patternOrZeroFill
  deriving DecidableEq, Repr

def patternFillByte : UInt8 := 0xAB

/-- The byte that `memset` writes in a mode other than `noFill`. -/
def FillContentsMode.byte : FillContentsMode → UInt8
  | zeroFill => 0
  | _ => patternFillByte

/-- The bits of `Options` that the secondary allocator reads; `useMemoryTagging` stands for
the function of that name. -/
structure Options where
  addLargeAllocationSlack : Bool
  useMemoryTagging : Bool
  deriving DecidableEq, Repr

/-- The bytes of a range set to one value. -/
def memset (bytes : Nat → UInt8) (addr : Nat) (value : UInt8) (size : Nat) : Nat → UInt8 :=
  fun a => if addr ≤ a ∧ a < addr + size then value else bytes a

/-- The bytes of a range copied from elsewhere. -/
def memcpy (bytes : Nat → UInt8) (addr : Nat) (source : Nat → UInt8) (size : Nat) : Nat → UInt8 :=
  fun a => if addr ≤ a ∧ a < addr + size then source a else bytes a

/-- A mapping and, at their addresses, the bytes behind it. Only its owner accesses them. -/
structure MemMap where
  base : Nat
  capacity : Nat
  bytes : Nat → UInt8

namespace MemMap

/-- Fresh anonymous pages read as zero. -/
def fresh (base capacity : Nat) : MemMap := ⟨base, capacity, fun _ => 0⟩

def releaseAndZeroPagesToOS (m : MemMap) (addr size : Nat) : MemMap :=
  { m with bytes := memset m.bytes addr 0 size }

/-- `unmapImpl`: unmapping from the beginning moves the base. -/
def unmap (word : WordSize) (m : MemMap) (addr size : Nat) : MemMap :=
  if size = m.capacity then { m with base := 0, capacity := 0 }
  else
    { m with
      base := if m.base = addr then wadd word.bits addr size else m.base
      capacity := wsub word.bits m.capacity size }

end MemMap

/-- A `LargeBlock::Header` at `headerPos`, less the links of the list of blocks in use. -/
structure LargeBlock where
  headerPos : Nat
  commitBase : Nat
  commitSize : Nat
  arenaOwnerPid : Nat
  memMap : MemMap

structure CachedBlock where
  commitBase : Nat
  commitSize : Nat
  blockBegin : Nat
  memMap : MemMap
  time : Nat

namespace CachedBlock

def maxReleasedCachePages : Nat := 4

def isValid (entry : CachedBlock) : Bool := entry.commitBase != 0

def invalidate (entry : CachedBlock) : CachedBlock := { entry with commitBase := 0 }

/-- A slot that was never used. -/
def empty : CachedBlock := ⟨0, 0, 0, ⟨0, 0, fun _ => 0⟩, 0⟩

end CachedBlock

def maxUnreleasedCachePages : Nat := 4

section Memory

variable (bytes : Nat → UInt8) (addr a : Nat) (value : UInt8) (size : Nat)

theorem memset_inside (above : addr ≤ a) (below : a < addr + size) :
    memset bytes addr value size a = value := if_pos ⟨above, below⟩

theorem memset_outside (outside : a < addr ∨ addr + size ≤ a) :
    memset bytes addr value size a = bytes a := if_neg (by omega)

theorem memcpy_outside (source : Nat → UInt8) (outside : a < addr ∨ addr + size ≤ a) :
    memcpy bytes addr source size a = bytes a := if_neg (by omega)

end Memory

namespace WordSize

theorem minAlignment_power (word : WordSize) : isPowerOfTwo word.minAlignment = true := by
  cases word <;> decide

theorem chunkHeaderSize_eq (word : WordSize) : word.chunkHeaderSize = word.minAlignment := by
  cases word <;> decide

theorem getHeadersSize_le (word : WordSize) : word.getHeadersSize ≤ 80 := by
  cases word <;> decide

theorem getHeadersSize_pos (word : WordSize) : 0 < word.getHeadersSize := by
  cases word <;> decide

theorem getHeadersSize_eq (word : WordSize) :
    word.getHeadersSize = word.largeHeaderSize + word.minAlignment := by
  cases word <;> decide

theorem bits_le (word : WordSize) : 2 ^ 32 ≤ 2 ^ word.bits := by
  cases word <;> decide

/-- The largest request, its alignment and a few of the largest pages fit into a word. -/
theorem maxAllowedMallocSize_lt (word : WordSize) :
    word.maxAllowedMallocSize + 2 ^ 31 ≤ 2 ^ word.bits := by
  cases word <;> decide

end WordSize

end Scudo.Secondary
