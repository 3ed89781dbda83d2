import Scudo.Frontend.Held
import Scudo.Tagging.StoreTags

/-!
The frontend while memory tagging is enabled, for the blocks of one class of the primary. A chunk has
the tag of its pointer on all its granules, and tag 0 in front of it and behind it.
-/

namespace Scudo.Tagging
open Scudo.Lib MemoryTags
open Scudo.Secondary (FillContentsMode memset)
open Scudo.Combined (Origin)
open Scudo.Frontend (Setup Checks allocated quarantined available originOf)

/-- The index of the lowest bit that is set. -/
def getLeastSignificantSetBitIndex (x : Nat) : Nat :=
  ((List.range 64).find? fun i => x.testBit i).getD 64

/-- The blocks of a class, and what the processor says of its data cache: a line that DC GZVA clears has
at least 16 bytes, the architecture's minimum with MTE. -/
structure Config where
  f : Setup
  word : f.p.word = .w64
  dczid : Nat
  lines : dczid.testBit 4 = false → 2 ≤ dczid &&& 15
  useOddEvenTags : Bool
  classId : Nat
  classId_pos : 0 < classId
  classId_lt : classId < 2 ^ 8
  base : Nat
  count : Nat
  granules : 16 ∣ f.classes.getSizeByClassId classId
  least : 32 ≤ f.classes.getSizeByClassId classId
  most : f.classes.getSizeByClassId classId < 2 ^ 20
  paged : f.p.page.bytes ∣ base
  fits : base + count * f.classes.getSizeByClassId classId + f.p.page.bytes ≤ 2 ^ 56

namespace Config

variable (c : Config)

def blockSize : Nat := c.f.classes.getSizeByClassId c.classId

def block (k : Nat) : Nat := c.base + k * c.blockSize

def getSizeLSBByClassId : Nat := getLeastSignificantSetBitIndex c.blockSize

def computeOddEvenMaskForPointerMaybe (ptr : Nat) : Nat :=
  if c.useOddEvenTags then 0x5555 <<< (ptr >>> c.getSizeLSBByClassId &&& 1) else 0

/-- Tag 0 behind the chunk, unless its block ends there. The pointer to a chunk of size zero is told
from its first byte. -/
def storeEndMarker (m : Memory) (stop size blockEnd : Nat) : Memory :=
  let untaggedEnd := untagPointer stop
  if untaggedEnd ≠ blockEnd then
    let m := storeTag m untaggedEnd
    if size = 0 then
      { m with bytes := memset m.bytes untaggedEnd (UInt8.ofNat (extractTag stop)) 1 }
    else m
  else m

/-- The memory and the tagged pointer. -/
def prepareTaggedChunk (start : Nat) (m : Memory) (ptr size excludeMask blockEnd : Nat) :
    Memory × Nat :=
  let m := storeTag m (ptr - archMemoryTagGranuleSize)
  let tagged := setRandomTag c.dczid start m ptr size excludeMask
  (storeEndMarker tagged.1 tagged.2.2 size blockEnd, tagged.2.1)

def resizeTaggedChunk (m : Memory) (oldPtr newPtr newSize blockEnd : Nat) : Memory :=
  let roundOldPtr := roundUp 64 oldPtr archMemoryTagGranuleSize
  if newPtr ≤ roundOldPtr then
    -- a chunk that shrinks keeps its tags up to its new end
    storeEndMarker m (roundUp 64 newPtr archMemoryTagGranuleSize) newSize blockEnd
  else
    let tagged := storeTags c.dczid m roundOldPtr newPtr
    storeEndMarker tagged.1 tagged.2 newSize blockEnd

/-- The two words in front of the chunk, where stacks are tracked: the trace and the thread. -/
def storePrimaryAllocationStackMaybe (stack : Option (BitVec 32 × BitVec 32)) (ptr : Nat)
    (bytes : Nat → UInt8) : Nat → UInt8 :=
  match stack with
  | none => bytes
  | some (trace, tid) => Chunk.store32 (Chunk.store32 bytes (ptr - 8) trace) (ptr - 4) tid

/-- The tags and the contents of a chunk of the primary. The tag that `deallocate` has left is used
again, except on what was reclaimed since. -/
def tagChunk (start : Nat) (m : Memory) (block userPtr size : Nat) (fill : FillContentsMode) :
    Memory × Nat :=
  let blockEnd := block + c.blockSize
  let found := c.f.getChunkFromBlock m.bytes block
  let taggedUserPtr := loadTag m userPtr
  if found.2.2 = true ∧ found.1 = userPtr ∧ taggedUserPtr ≠ userPtr then
    let prevEnd := taggedUserPtr + found.2.1.sizeOrUnusedBytes.toNat
    let nextPage := roundUp 64 taggedUserPtr c.f.p.page.bytes
    let prevEnd := if nextPage < prevEnd ∧ loadTag m nextPage ≠ nextPage then nextPage else prevEnd
    let m := c.resizeTaggedChunk m prevEnd (taggedUserPtr + size) size blockEnd
    let bytes :=
      if fill ≠ .noFill ∧ found.2.1.originOrWasZeroed = 0 then
        memset m.bytes userPtr 0 (min size
          (roundUp 64 (prevEnd - taggedUserPtr) archMemoryTagGranuleSize))
      else if size ≠ 0 then memset m.bytes userPtr 0 archMemoryTagGranuleSize
      else m.bytes
    ({ m with bytes := bytes }, taggedUserPtr)
  else
    c.prepareTaggedChunk start m userPtr size (c.computeOddEvenMaskForPointerMaybe block) blockEnd

/-- For a block of the primary. Marker and header are those of `initChunk`, which fills nothing here. -/
def initChunkWithMemoryTagging (start : Nat) (m : Memory) (origin : Origin)
    (stack : Option (BitVec 32 × BitVec 32)) (block userPtr size : Nat) (fill : FillContentsMode) :
    Memory × Nat :=
  let chunk := c.tagChunk start m block userPtr size fill
  let bytes := storePrimaryAllocationStackMaybe stack userPtr chunk.1.bytes
  ({ chunk.1 with
      bytes := (c.f.initChunk c.classId origin (.primary block) block userPtr size .noFill bytes).bytes },
    chunk.2)

/-- The memory and the beginning of the block. The ring buffer that gets the stacks is not part of the
memory. -/
def retagBlock (start : Nat) (m : Memory) (taggedPtr : Nat) (header : Chunk.UnpackedHeader)
    (size : Nat) (disableMemInit : Bool) : Memory × Nat :=
  let ptr := untagPointer taggedPtr
  let prevTag := extractTag taggedPtr
  let blockBegin := c.f.getBlockBegin ptr header
  if header.classId ≠ 0 ∧ disableMemInit = false then
    ((setRandomTag c.dczid start m ptr size
      (c.computeOddEvenMaskForPointerMaybe blockBegin ||| 1 <<< prevTag)).1, blockBegin)
  else (m, blockBegin)

/-- What is left, and the block that goes back to its backend; none where the chunk is put into the
quarantine. -/
def quarantineOrDeallocateChunk (checks : Checks) (start : Nat) (m : Memory) (taggedPtr : Nat)
    (header : Chunk.UnpackedHeader) (size : Nat) (disableMemInit : Bool) : Memory × Option Nat :=
  let ptr := untagPointer taggedPtr
  let bypassQuarantine := checks.quarantineCacheSize = 0 ∨
    checks.quarantineMaxChunkSize ≤ wsub c.f.p.word.bits size 1 ∨ header.classId = 0
  let header := { header with
    state := if bypassQuarantine then available else quarantined
    originOrWasZeroed := if header.classId ≠ 0 ∧ disableMemInit = false then 1 else 0 }
  let m := { m with bytes := c.f.storeHeader ptr header m.bytes }
  let retagged := c.retagBlock start m taggedPtr header size disableMemInit
  (retagged.1, if bypassQuarantine then some retagged.2 else none)

/-- Of a tagged pointer, which leads to a header of the primary; `none` stands for the reports. -/
def deallocate (checks : Checks) (start : Nat) (m : Memory) (taggedPtr : Nat) (origin : Origin)
    (deleteSize : Nat) (disableMemInit : Bool) : Option (Memory × Option Nat) :=
  if ¬c.f.p.word.minAlignment ∣ taggedPtr then none
  else
    match c.f.loadHeader (untagPointer taggedPtr) m.bytes with
    | none => none
    | some header =>
      if header.state ≠ allocated then none
      else if checks.deallocTypeMismatch ∧ header.originOrWasZeroed ≠ originOf origin ∧
          (header.originOrWasZeroed ≠ originOf .memalign ∨ origin ≠ .malloc) then none
      else if deleteSize ≠ 0 ∧ checks.deleteSizeMismatch ∧
          deleteSize ≠ header.sizeOrUnusedBytes.toNat then none
      else some (c.quarantineOrDeallocateChunk checks start m taggedPtr header
        header.sizeOrUnusedBytes.toNat disableMemInit)

/-- The part of `reallocate` that keeps the block; none where it reports or moves the chunk. -/
def reallocateInPlace (checks : Checks) (m : Memory) (oldTaggedPtr newSize : Nat)
    (fill : FillContentsMode) (stack : Option (BitVec 32 × BitVec 32)) : Option Memory :=
  let oldPtr := untagPointer oldTaggedPtr
  if c.f.p.word.maxAllowedMallocSize ≤ newSize then none
  else if ¬c.f.p.word.minAlignment ∣ oldPtr then none
  else
    match c.f.loadHeader oldPtr m.bytes with
    | none => none
    | some header =>
      if header.state ≠ allocated then none
      else if checks.deallocTypeMismatch ∧ header.originOrWasZeroed ≠ originOf .malloc then none
      else
        let blockEnd := c.f.getBlockBegin oldTaggedPtr header +
          c.f.classes.getSizeByClassId header.classId.toNat
        let oldSize := header.sizeOrUnusedBytes.toNat
        if oldTaggedPtr + newSize ≤ blockEnd ∧
            (oldSize < newSize ∨ oldSize - newSize < c.f.p.page.bytes) then
          let bytes := if newSize < oldSize ∧ fill ≠ .noFill then
              memset m.bytes (oldPtr + newSize) fill.byte (oldSize - newSize) else m.bytes
          let header := { header with sizeOrUnusedBytes := BitVec.ofNat 20 newSize }
          let m := { m with bytes := c.f.storeHeader oldPtr header bytes }
          let m := c.resizeTaggedChunk m (oldTaggedPtr + oldSize) (oldTaggedPtr + newSize) newSize
            (untagPointer blockEnd)
          some { m with bytes := storePrimaryAllocationStackMaybe stack oldPtr m.bytes }
        else none

/-- `QuarantineCallback::recycle`; the quarantine has the untagged pointer. -/
def recycle (m : Memory) (ptr : Nat) : Option (Memory × Nat) :=
  match c.f.loadHeader ptr m.bytes with
  | none => none
  | some header =>
    if header.state ≠ quarantined then none
    else
      let header := { header with state := available }
      some ({ m with bytes := c.f.storeHeader ptr header m.bytes },
        c.f.getBlockBegin (untagPointer ptr) header)

/-- `QuarantineCallback::allocate`, with the size of a `QuarantineBatch`. -/
def allocateBatch (m : Memory) (block batchSize : Nat) : Memory × Nat :=
  let ptr := block + c.f.p.word.chunkHeaderSize
  let header : Chunk.UnpackedHeader :=
    { classId := BitVec.ofNat 8 c.classId
      state := allocated
      originOrWasZeroed := 0
      sizeOrUnusedBytes := BitVec.ofNat 20 batchSize
      offset := 0
      checksum := 0 }
  let m := { m with bytes := c.f.storeHeader ptr header m.bytes }
  -- the block may have been one of a tagged chunk
  ((storeTags c.dczid m ptr (ptr + batchSize)).1, ptr)

/-- `QuarantineCallback::deallocate` -/
def deallocateBatch (m : Memory) (ptr : Nat) : Option (Memory × Nat) :=
  match c.f.loadHeader ptr m.bytes with
  | none => none
  | some header =>
    if header.state ≠ allocated then none
    else
      let header := { header with state := available }
      some ({ m with bytes := c.f.storeHeader ptr header m.bytes }, ptr - c.f.p.word.chunkHeaderSize)

end Config

end Scudo.Tagging
