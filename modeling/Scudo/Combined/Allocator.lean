import Scudo.Secondary.Heap

/-!
The frontend: it takes a block from the primary or the secondary, places the user pointer in it
and keeps what it needs to know in a packed header in front of that pointer. A chunk carries
the header unpacked; memory tagging changes neither the header nor the placement.
-/

namespace Scudo.Combined
open Scudo.Secondary

/-- The size class map of the primary. -/
structure SizeClassMap where
  maxSize : Nat
  largestClassId : Nat
  getClassIdBySize : Nat → Nat
  getSizeByClassId : Nat → Nat

/-- What the map and the sanity checks at start-up guarantee. -/
structure SizeClassMap.Sane (classes : SizeClassMap) : Prop where
  maxSize_le : classes.maxSize ≤ 2 ^ 20
  largestClassId_lt : classes.largestClassId < 2 ^ 8
  classId : ∀ size, 0 < size → size ≤ classes.maxSize → 0 < classes.getClassIdBySize size ∧
    classes.getClassIdBySize size ≤ classes.largestClassId
  size_le : ∀ classId, classId ≤ classes.largestClassId →
    classes.getSizeByClassId classId ≤ classes.maxSize

inductive Origin where
  | malloc
  | new
  | newArray
  | memalign
  deriving DecidableEq, Repr

inductive ChunkState where
  | available
  | allocated
  | quarantined
  deriving DecidableEq, Repr

structure UnpackedHeader where
  classId : Nat
  state : ChunkState
  origin : Origin
  sizeOrUnusedBytes : Nat
  offset : Nat
  deriving DecidableEq, Repr

def classIdMask : Nat := 2 ^ 8 - 1
def sizeOrUnusedBytesMask : Nat := 2 ^ 20 - 1
def offsetMask : Nat := 2 ^ 16 - 1

/-- The block behind a chunk. -/
inductive Backing where
  | primary (block : Nat)
  | secondary (block : LargeBlock)

structure Chunk where
  userPtr : Nat
  header : UnpackedHeader
  backing : Backing
  /-- The memory of the block, by address. -/
  bytes : Nat → UInt8

/-- The settings that the frontend reads. -/
structure Settings where
  opts : Options
  fillContentsMode : FillContentsMode
  disableMemInit : Bool

/-- What one call finds: the answers of the primary for each class with the bytes of the block
that it hands out, the surroundings of the secondary, and how a header looks in memory. -/
structure Backends where
  primary : Nat → Option Nat
  primaryBytes : Nat → UInt8
  sur : Surroundings
  headerBytes : Nat → UInt8

structure Call where
  size : Nat
  alignment : Nat
  origin : Origin
  zeroContents : Bool

/-- The size of the block that a call needs from the primary. -/
def neededSize (p : Platform) (size alignment : Nat) : Nat :=
  wadd p.word.bits (roundUp p.word.bits size p.word.minAlignment)
    (if p.word.minAlignment < alignment then alignment else p.word.chunkHeaderSize)

def fillContentsOf (settings : Settings) (zeroContents : Bool) : FillContentsMode :=
  if zeroContents then .zeroFill
  else if settings.disableMemInit then .noFill
  else settings.fillContentsMode

/-- Ask the `remaining` classes above `classId`, smallest first. -/
def retryLarger (primary : Nat → Option Nat) (classId : Nat) : Nat → Option (Nat × Nat)
  | 0 => none
  | remaining + 1 =>
    match primary (classId + 1) with
    | some block => some (classId + 1, block)
    | none => retryLarger primary (classId + 1) remaining

/-- A block that is found then is of a larger class. -/
theorem retryLarger_some {primary : Nat → Option Nat} {remaining : Nat} {classId classId' block : Nat}
    (found : retryLarger primary classId remaining = some (classId', block)) :
    classId < classId' ∧ classId' ≤ classId + remaining := by
  induction remaining generalizing classId with
  | zero => cases found
  | succ remaining ih =>
    rw [retryLarger] at found
    split at found
    · cases found
      exact ⟨Nat.lt_succ_self _, by omega⟩
    · obtain ⟨above, below⟩ := ih found
      exact ⟨by omega, by omega⟩

/-- The class and the block that the primary provides, if it does. -/
def allocateFromPrimary (p : Platform) (classes : SizeClassMap) (primary : Nat → Option Nat)
    (size alignment : Nat) : Option (Nat × Nat) :=
  if neededSize p size alignment ≤ classes.maxSize then
    let classId := classes.getClassIdBySize (neededSize p size alignment)
    match primary classId with
    | some block => some (classId, block)
    | none => retryLarger primary classId (classes.largestClassId - classId)
  else none

/-- Place the chunk of a block that starts at `block`, with its marker and its header. -/
def initChunk (p : Platform) (classes : SizeClassMap) (headerBytes : Nat → UInt8) (classId : Nat)
    (origin : Origin) (backing : Backing) (block userPtr sizeOrUnusedBytes : Nat)
    (fill : FillContentsMode) (bytes : Nat → UInt8) : Chunk :=
  let defaultAlignedPtr := wadd p.word.bits block p.word.chunkHeaderSize
  -- the secondary has filled its blocks already
  let bytes := if classId ≠ 0 ∧ fill ≠ .noFill then
      memset bytes block fill.byte (classes.getSizeByClassId classId) else bytes
  let offset := if defaultAlignedPtr ≠ userPtr then
      (wsub p.word.bits userPtr defaultAlignedPtr / p.word.minAlignment) &&& offsetMask else 0
  let bytes := if defaultAlignedPtr ≠ userPtr then memcpy bytes block headerBytes 8 else bytes
  { userPtr := userPtr
    header :=
      { classId := classId &&& classIdMask
        state := .allocated
        origin := origin
        sizeOrUnusedBytes := sizeOrUnusedBytes &&& sizeOrUnusedBytesMask
        offset := offset }
    backing := backing
    bytes := memcpy bytes (wsub p.word.bits userPtr p.word.chunkHeaderSize) headerBytes 8 }

/-- The user pointer in a block that starts at `block`. -/
def userPtrOf (p : Platform) (block alignment : Nat) : Nat :=
  roundUp p.word.bits (wadd p.word.bits block p.word.chunkHeaderSize) alignment

/-- The alignment that the rest of the call uses. -/
def raisedAlignment (p : Platform) (alignment : Nat) : Nat :=
  if alignment < p.word.minAlignment then p.word.minAlignment else alignment

/-- The chunk of a block of the primary. -/
def primaryChunk (p : Platform) (classes : SizeClassMap) (b : Backends) (call : Call)
    (fill : FillContentsMode) (classId block : Nat) : Chunk :=
  initChunk p classes b.headerBytes classId call.origin (.primary block) block
    (userPtrOf p block (raisedAlignment p call.alignment)) call.size fill b.primaryBytes

/-- The chunk of a block of the secondary. -/
def secondaryChunk (p : Platform) (classes : SizeClassMap) (b : Backends) (call : Call)
    (fill : FillContentsMode) (a : Allocation) : Chunk :=
  let userPtr := userPtrOf p (a.block.ptr p) (raisedAlignment p call.alignment)
  initChunk p classes b.headerBytes 0 call.origin (.secondary a.block) (a.block.ptr p) userPtr
    (wsub p.word.bits a.blockEnd (wadd p.word.bits userPtr call.size)) fill a.block.memMap.bytes

/-- The request that reaches the secondary. -/
def secondaryRequest (p : Platform) (settings : Settings) (call : Call) : Secondary.Request where
  opts := settings.opts
  size := call.size
  alignment := raisedAlignment p call.alignment
  fill := fillContentsOf settings call.zeroContents

/-- `Allocator::allocate`. `none` stands for every outcome without a chunk. -/
def allocate (p : Platform) (classes : SizeClassMap) (settings : Settings) (b : Backends)
    (cache : Cache) (call : Call) : Option (Chunk × Cache) :=
  if maxAlignment < call.alignment then none
  else if p.word.maxAllowedMallocSize ≤ call.size then none
  else
    let fill := fillContentsOf settings call.zeroContents
    match allocateFromPrimary p classes b.primary call.size (raisedAlignment p call.alignment) with
    | some (classId, block) => some (primaryChunk p classes b call fill classId block, cache)
    | none =>
      match MapAllocator.allocate p b.sur cache (secondaryRequest p settings call) with
      | some (some a, cache, _) => some (secondaryChunk p classes b call fill a, cache)
      | _ => none

/-- `getBlockBegin`. -/
def getBlockBegin (p : Platform) (chunk : Chunk) : Nat :=
  wsub p.word.bits (wsub p.word.bits chunk.userPtr p.word.chunkHeaderSize)
    (wrap p.word.bits (chunk.header.offset * p.word.minAlignment))

/-- `SecondaryT::getBlockEnd` reads the header of the large block in front of `addr`. -/
def secondaryBlockEnd (p : Platform) (chunk : Chunk) (addr : Nat) : Option Nat :=
  match chunk.backing with
  | .primary _ => none
  | .secondary block => if block.ptr p = addr then some (block.getBlockEnd p) else none

/-- `getSize`; `none` where the block header is not where it is looked for. -/
def getSize (p : Platform) (chunk : Chunk) : Option Nat :=
  if chunk.header.classId ≠ 0 then some chunk.header.sizeOrUnusedBytes
  else
    match secondaryBlockEnd p chunk (getBlockBegin p chunk) with
    | none => none
    | some blockEnd => some (wsub p.word.bits (wsub p.word.bits blockEnd chunk.userPtr)
        chunk.header.sizeOrUnusedBytes)

/-- `BlockEnd` and `OldSize` of `reallocate`. -/
def reallocateBounds (p : Platform) (classes : SizeClassMap) (chunk : Chunk) :
    Option (Nat × Nat) :=
  if chunk.header.classId ≠ 0 then
    some (wadd p.word.bits (getBlockBegin p chunk)
      (classes.getSizeByClassId chunk.header.classId), chunk.header.sizeOrUnusedBytes)
  else
    match secondaryBlockEnd p chunk (getBlockBegin p chunk) with
    | none => none
    | some blockEnd => some (blockEnd, wsub p.word.bits blockEnd
        (wadd p.word.bits chunk.userPtr chunk.header.sizeOrUnusedBytes))

/-- Whether `reallocate` keeps the block. -/
def resizesInPlace (p : Platform) (chunk : Chunk) (newSize blockEnd oldSize : Nat) : Bool :=
  decide (wadd p.word.bits chunk.userPtr newSize ≤ blockEnd) &&
    (decide (oldSize < newSize) || decide (oldSize - newSize < p.page.bytes))

/-- Keep the block: fill what the chunk gives up, and store the new size. -/
def resizeInPlace (p : Platform) (settings : Settings) (chunk : Chunk)
    (newSize blockEnd oldSize : Nat) : Chunk :=
  let fill := fillContentsOf settings false
  let bytes := if newSize < oldSize ∧ fill ≠ .noFill then
      memset chunk.bytes (wadd p.word.bits chunk.userPtr newSize) fill.byte (oldSize - newSize)
    else chunk.bytes
  { chunk with
    header := { chunk.header with
      sizeOrUnusedBytes := (if chunk.header.classId ≠ 0 then newSize
        else wsub p.word.bits blockEnd (wadd p.word.bits chunk.userPtr newSize)) &&&
          sizeOrUnusedBytesMask }
    bytes := bytes }

/-- `Allocator::reallocate` of an allocated chunk, less the release of the old block of a chunk
that moves. -/
def reallocate (p : Platform) (classes : SizeClassMap) (settings : Settings) (b : Backends)
    (cache : Cache) (chunk : Chunk) (newSize alignment : Nat) : Option (Chunk × Cache) :=
  if p.word.maxAllowedMallocSize ≤ newSize then none
  else
    match reallocateBounds p classes chunk with
    | none => none
    | some (blockEnd, oldSize) =>
      if resizesInPlace p chunk newSize blockEnd oldSize then
        some (resizeInPlace p settings chunk newSize blockEnd oldSize, cache)
      else
        match allocate p classes settings b cache ⟨newSize, alignment, .malloc, false⟩ with
        | none => none
        | some (moved, cache) =>
          let copied := fun a => chunk.bytes (chunk.userPtr + (a - moved.userPtr))
          some ({ moved with
            bytes := memcpy moved.bytes moved.userPtr copied (min newSize oldSize) }, cache)

end Scudo.Combined
