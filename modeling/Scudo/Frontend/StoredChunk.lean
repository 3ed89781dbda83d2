import Scudo.Chunk.Memory
import Scudo.Combined.Allocator

/-!
The frontend over the memory of its blocks: headers are packed and checksummed in front of the chunks,
and a block whose chunk is shifted has a marker at its beginning. Every block has its own memory, which
only its owner accesses, and memory tagging is off.
-/

namespace Scudo.Frontend
open Scudo.Secondary
open Scudo.Combined (SizeClassMap Origin Backing Settings Backends Call)

/-- What the allocator is compiled and started with. -/
structure Setup where
  p : Platform
  classes : SizeClassMap
  algorithm : Chunk.ChecksumAlgorithm
  crc32 : BitVec 32 → BitVec p.word.bits → BitVec 32
  cookie : BitVec 32

/-- A chunk with its block and the memory of that block, by address. -/
structure StoredChunk where
  userPtr : Nat
  backing : Backing
  bytes : Nat → UInt8

/-- `Chunk::State`. -/
def available : BitVec 2 := 0
def allocated : BitVec 2 := 1
def quarantined : BitVec 2 := 2

/-- `Chunk::Origin`. -/
def originOf : Origin → BitVec 2
  | .malloc => 0
  | .new => 1
  | .newArray => 2
  | .memalign => 3

/-- The options and the quarantine that a release reads. -/
structure Checks where
  deallocTypeMismatch : Bool
  deleteSizeMismatch : Bool
  quarantineCacheSize : Nat
  quarantineMaxChunkSize : Nat

/-- The address that the backend gave. -/
def blockOf (p : Platform) : Backing → Nat
  | .primary block => block
  | .secondary block => block.ptr p

/-- `SecondaryT::getBlockEnd` reads the header of the large block in front of `addr`. -/
def secondaryBlockEnd (p : Platform) (addr : Nat) : Backing → Option Nat
  | .primary _ => none
  | .secondary block => if block.ptr p = addr then some (block.getBlockEnd p) else none

namespace Setup

variable (f : Setup)

def storeHeader (ptr : Nat) (header : Chunk.UnpackedHeader) (bytes : Nat → UInt8) : Nat → UInt8 :=
  Chunk.store64 bytes (wsub f.p.word.bits ptr f.p.word.chunkHeaderSize)
    (Chunk.storeHeader f.p.word f.algorithm f.crc32 f.cookie (BitVec.ofNat _ ptr) header)

/-- Nothing stands for `reportHeaderCorruption`. -/
def loadHeader (ptr : Nat) (bytes : Nat → UInt8) : Option Chunk.UnpackedHeader :=
  Chunk.loadHeader f.p.word f.algorithm f.crc32 f.cookie (BitVec.ofNat _ ptr)
    (Chunk.load64 bytes (wsub f.p.word.bits ptr f.p.word.chunkHeaderSize))

def getBlockBegin (ptr : Nat) (header : Chunk.UnpackedHeader) : Nat :=
  wsub f.p.word.bits (wsub f.p.word.bits ptr f.p.word.chunkHeaderSize)
    (wrap f.p.word.bits (header.offset.toNat * f.p.word.minAlignment))

def getChunkOffsetFromBlock (bytes : Nat → UInt8) (block : Nat) : Nat :=
  let offset := if Chunk.load32 bytes block = Chunk.blockMarker then
    (Chunk.load32 bytes (block + 4)).toNat else 0
  wadd f.p.word.bits offset f.p.word.chunkHeaderSize

/-- The chunk, its header, and whether that is valid. -/
def getChunkFromBlock (bytes : Nat → UInt8) (block : Nat) : Nat × Chunk.UnpackedHeader × Bool :=
  let chunk := wadd f.p.word.bits block (f.getChunkOffsetFromBlock bytes block)
  let packed := Chunk.load64 bytes (wsub f.p.word.bits chunk f.p.word.chunkHeaderSize)
  (chunk, Chunk.unpack packed,
    Chunk.isValid f.p.word f.algorithm f.crc32 f.cookie (BitVec.ofNat _ chunk) packed)

/-- The header that `initChunk` stores. -/
def initHeader (classId : Nat) (origin : Origin) (block userPtr sizeOrUnusedBytes : Nat) :
    Chunk.UnpackedHeader :=
  let defaultAlignedPtr := wadd f.p.word.bits block f.p.word.chunkHeaderSize
  { classId := BitVec.ofNat 8 classId
    state := allocated
    originOrWasZeroed := originOf origin
    sizeOrUnusedBytes := BitVec.ofNat 20 sizeOrUnusedBytes
    offset := if defaultAlignedPtr ≠ userPtr then
      BitVec.ofNat 16 (wsub f.p.word.bits userPtr defaultAlignedPtr / f.p.word.minAlignment) else 0
    checksum := 0 }

def initChunk (classId : Nat) (origin : Origin) (backing : Backing) (block userPtr : Nat)
    (sizeOrUnusedBytes : Nat) (fill : FillContentsMode) (bytes : Nat → UInt8) : StoredChunk :=
  let defaultAlignedPtr := wadd f.p.word.bits block f.p.word.chunkHeaderSize
  -- the secondary has filled its blocks already
  let bytes := if classId ≠ 0 ∧ fill ≠ .noFill then
      memset bytes block fill.byte (f.classes.getSizeByClassId classId) else bytes
  let bytes := if defaultAlignedPtr ≠ userPtr then
      Chunk.store32 (Chunk.store32 bytes block Chunk.blockMarker) (block + 4)
        (BitVec.ofNat 32 (wsub f.p.word.bits userPtr defaultAlignedPtr)) else bytes
  ⟨userPtr, backing, f.storeHeader userPtr
    (f.initHeader classId origin block userPtr sizeOrUnusedBytes) bytes⟩

def primaryChunk (b : Backends) (call : Call) (fill : FillContentsMode) (classId block : Nat) :
    StoredChunk :=
  f.initChunk classId call.origin (.primary block) block
    (Combined.userPtrOf f.p block (Combined.raisedAlignment f.p call.alignment)) call.size fill
    b.primaryBytes

def secondaryChunk (call : Call) (fill : FillContentsMode) (a : Allocation) : StoredChunk :=
  let userPtr := Combined.userPtrOf f.p (a.block.ptr f.p) (Combined.raisedAlignment f.p call.alignment)
  f.initChunk 0 call.origin (.secondary a.block) (a.block.ptr f.p) userPtr
    (wsub f.p.word.bits a.blockEnd (wadd f.p.word.bits userPtr call.size)) fill a.block.memMap.bytes

/-- The chunk, or none where the call returns a null pointer or reports why there is no chunk. The outer
`none` is that of the secondary. -/
def allocate (settings : Settings) (b : Backends) (large : Secondary.Heap) (call : Call) :
    Option (Option StoredChunk × Secondary.Heap) :=
  if maxAlignment < call.alignment then some (none, large)
  else if f.p.word.maxAllowedMallocSize ≤ call.size then some (none, large)
  else
    let fill := Combined.fillContentsOf settings call.zeroContents
    match Combined.allocateFromPrimary f.p f.classes b.primary call.size
        (Combined.raisedAlignment f.p call.alignment) with
    | some (classId, block) => some (some (f.primaryChunk b call fill classId block), large)
    | none =>
      match MapAllocator.allocate f.p b.sur large.cache
          (Combined.secondaryRequest f.p settings call) with
      | none => none
      | some (none, cache, _) => some (none, ⟨cache, large.inUse⟩)
      | some (some a, cache, _) =>
        some (some (f.secondaryChunk call fill a), ⟨cache, large.inUse ++ [a.block]⟩)

/-- `BlockEnd` and `OldSize` of `reallocate`. -/
def blockEndAndSize (chunk : StoredChunk) (header : Chunk.UnpackedHeader) : Option (Nat × Nat) :=
  let blockBegin := f.getBlockBegin chunk.userPtr header
  if header.classId ≠ 0 then
    some (wadd f.p.word.bits blockBegin (f.classes.getSizeByClassId header.classId.toNat),
      header.sizeOrUnusedBytes.toNat)
  else
    match secondaryBlockEnd f.p blockBegin chunk.backing with
    | none => none
    | some blockEnd => some (blockEnd, wsub f.p.word.bits blockEnd
        (wadd f.p.word.bits chunk.userPtr header.sizeOrUnusedBytes.toNat))

/-- `getSize` -/
def getSize (chunk : StoredChunk) (header : Chunk.UnpackedHeader) : Option Nat :=
  if header.classId ≠ 0 then some header.sizeOrUnusedBytes.toNat
  else
    match secondaryBlockEnd f.p (f.getBlockBegin chunk.userPtr header) chunk.backing with
    | none => none
    | some blockEnd => some (wsub f.p.word.bits (wsub f.p.word.bits blockEnd chunk.userPtr)
        header.sizeOrUnusedBytes.toNat)

/-- What is left of a chunk, and the block that goes back to its backend; none where the chunk is put
into the quarantine. -/
def quarantineOrDeallocateChunk (checks : Checks) (chunk : StoredChunk)
    (header : Chunk.UnpackedHeader) (size : Nat) : StoredChunk × Option Nat :=
  let bypassQuarantine := checks.quarantineCacheSize = 0 ∨
    checks.quarantineMaxChunkSize ≤ wsub f.p.word.bits size 1 ∨ header.classId = 0
  let header := { header with
    state := if bypassQuarantine then available else quarantined
    originOrWasZeroed := 0 }
  ({ chunk with bytes := f.storeHeader chunk.userPtr header chunk.bytes },
    if bypassQuarantine then some (f.getBlockBegin chunk.userPtr header) else none)

/-- `none` stands for the reports, which do not return. -/
def deallocate (checks : Checks) (chunk : StoredChunk) (origin : Origin) (deleteSize : Nat) :
    Option (StoredChunk × Option Nat) :=
  if ¬f.p.word.minAlignment ∣ chunk.userPtr then none
  else
    match f.loadHeader chunk.userPtr chunk.bytes with
    | none => none
    | some header =>
      if header.state ≠ allocated then none
      else if checks.deallocTypeMismatch ∧ header.originOrWasZeroed ≠ originOf origin ∧
          (header.originOrWasZeroed ≠ originOf .memalign ∨ origin ≠ .malloc) then none
      else
        match f.getSize chunk header with
        | none => none
        | some size =>
          if deleteSize ≠ 0 ∧ checks.deleteSizeMismatch ∧ deleteSize ≠ size then none
          else some (f.quarantineOrDeallocateChunk checks chunk header size)

/-- The block that a chunk from the quarantine gives back. -/
def recycle (chunk : StoredChunk) : Option (StoredChunk × Nat) :=
  match f.loadHeader chunk.userPtr chunk.bytes with
  | none => none
  | some header =>
    if header.state ≠ quarantined then none
    else
      let header := { header with state := available }
      some ({ chunk with bytes := f.storeHeader chunk.userPtr header chunk.bytes },
        f.getBlockBegin chunk.userPtr header)

/-- Keep the block: fill what the chunk gives up, and store the new size. -/
def resizeInPlace (settings : Settings) (chunk : StoredChunk) (header : Chunk.UnpackedHeader)
    (newSize blockEnd oldSize : Nat) : StoredChunk :=
  let fill := Combined.fillContentsOf settings false
  let bytes := if newSize < oldSize ∧ fill ≠ .noFill then
      memset chunk.bytes (wadd f.p.word.bits chunk.userPtr newSize) fill.byte (oldSize - newSize)
    else chunk.bytes
  let sizeOrUnusedBytes := if header.classId ≠ 0 then newSize
    else wsub f.p.word.bits blockEnd (wadd f.p.word.bits chunk.userPtr newSize)
  let header := { header with sizeOrUnusedBytes := BitVec.ofNat 20 sizeOrUnusedBytes }
  { chunk with bytes := f.storeHeader chunk.userPtr header bytes }

/-- What `reallocate` leaves: the old chunk where there is no new one, the resized chunk, or the new
chunk with what is left of the old one. -/
inductive Reallocated where
  | null (old : StoredChunk) (large : Secondary.Heap)
  | inPlace (chunk : StoredChunk)
  | moved (chunk : StoredChunk) (large : Secondary.Heap) (old : StoredChunk) (freed : Option Nat)

def reallocate (settings : Settings) (checks : Checks) (b : Backends) (large : Secondary.Heap)
    (chunk : StoredChunk) (newSize alignment : Nat) : Option Reallocated :=
  if f.p.word.maxAllowedMallocSize ≤ newSize then some (.null chunk large)
  else if ¬f.p.word.minAlignment ∣ chunk.userPtr then none
  else
    match f.loadHeader chunk.userPtr chunk.bytes with
    | none => none
    | some header =>
      if header.state ≠ allocated then none
      else if checks.deallocTypeMismatch ∧ header.originOrWasZeroed ≠ originOf .malloc then none
      else
        match f.blockEndAndSize chunk header with
        | none => none
        | some (blockEnd, oldSize) =>
          if wadd f.p.word.bits chunk.userPtr newSize ≤ blockEnd ∧
              (oldSize < newSize ∨ oldSize - newSize < f.p.page.bytes) then
            some (.inPlace (f.resizeInPlace settings chunk header newSize blockEnd oldSize))
          else
            match f.allocate settings b large ⟨newSize, alignment, .malloc, false⟩ with
            | none => none
            | some (none, large) => some (.null chunk large)
            | some (some moved, large) =>
              let copied := fun a => chunk.bytes (chunk.userPtr + (a - moved.userPtr))
              let moved := { moved with
                bytes := memcpy moved.bytes moved.userPtr copied (min newSize oldSize) }
              let released := f.quarantineOrDeallocateChunk checks chunk header oldSize
              some (.moved moved large released.1 released.2)

end Setup

end Scudo.Frontend
