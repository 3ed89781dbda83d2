import Scudo.ErrorInfo.NearestBlock
import Scudo.ErrorInfo.StackDepot

/-!
`getErrorInfo`: what can be found out about a fault from the memory around it and from the ring
buffer of allocations, as up to three reports.
-/

namespace Scudo.ErrorInfo
open Scudo.Primary
open Scudo.Lib.Checked

inductive ErrorType where
  | unknown
  | useAfterFree
  | bufferOverflow
  | bufferUnderflow
  deriving DecidableEq, Repr

structure ErrorReport where
  errorType : ErrorType
  allocationAddress : Nat
  allocationSize : Nat
  allocationTid : Nat
  allocationTrace : Vector Nat maxTraceSize
  deallocationTid : Nat
  deallocationTrace : Vector Nat maxTraceSize

def ErrorReport.empty : ErrorReport :=
  ⟨.unknown, 0, 0, 0, Vector.replicate maxTraceSize 0, 0, Vector.replicate maxTraceSize 0⟩

def numErrorReports : Nat := 3

/-- `ErrorInfo` and `NextErrorReport`. -/
structure Reporting where
  reports : Vector ErrorReport numErrorReports
  nextErrorReport : Nat

def Reporting.start : Reporting := ⟨Vector.replicate numErrorReports ErrorReport.empty, 0⟩

/-- What is known of the process; a null pointer is `none`. There is a tag for each granule. -/
structure CrashDump where
  faultAddr : Nat
  depot : Option Buffer
  regions : Nat → RegionFields
  ringBuffer : Option Buffer
  memory : Buffer
  memoryTags : Buffer
  memoryAddr : Nat
  faultAddr_lt : faultAddr < 2 ^ 64
  memoryAddr_lt : memoryAddr < 2 ^ 64
  tags : memoryTags.size = memory.size / 16

def untagPointer (ptr : Nat) : Nat := ptr &&& (2 ^ 56 - 1)

def extractTag (ptr : Nat) : Nat := (ptr >>> 56) &&& 0xf

def archMemoryTagGranuleSize : Nat := 16

def blockMarker : Nat := 0x44554353

/-- `Chunk::getHeaderSize()`. -/
def headerSize : Nat := 16

def chunkStateAllocated : Nat := 1

/-- Fields of a packed header. -/
def headerState (packed : Nat) : Nat := (packed >>> 8) &&& 3

def headerSizeOrUnusedBytes (packed : Nat) : Nat := (packed >>> 12) &&& (2 ^ 20 - 1)

def memTagAllocationTraceIndex : Int := -2
def memTagAllocationTidIndex : Int := -1

section Inline

variable (dump : CrashDump)

/-- `GetGranule`: where the granule is in `Memory`, and its tag. -/
def getGranule (addr : Nat) : Checked (Option (Int × Nat)) :=
  if addr < dump.memoryAddr ∨ wadd 64 addr archMemoryTagGranuleSize < addr ∨
      wadd 64 dump.memoryAddr dump.memory.size < wadd 64 addr archMemoryTagGranuleSize then
    return none
  else do
    let data ← dump.memory.address (wsub 64 addr dump.memoryAddr)
    let tag ← dump.memoryTags.load 1
      (wsub 64 addr dump.memoryAddr / archMemoryTagGranuleSize : Nat)
    return some (data, tag)

def getChunkOffsetFromBlock (block : Int) : Checked Nat := do
  let marker ← dump.memory.load 4 block
  if marker = blockMarker then
    let offset ← dump.memory.load 4 (block + 4)
    return wadd 64 offset headerSize
  else return headerSize

structure BlockRead where
  chunkAddr : Nat
  header : Nat
  data : Int
  tag : Nat

/-- `ReadBlock` -/
def readBlock (addr : Nat) : Checked (Option BlockRead) := do
  let block ← getGranule dump addr
  match block with
  | none => return none
  | some (blockBegin, _) =>
    let chunkOffset ← getChunkOffsetFromBlock dump blockBegin
    let chunkAddr := wadd 64 addr chunkOffset
    let chunk ← getGranule dump chunkAddr
    match chunk with
    | none => return none
    | some (chunkBegin, tag) =>
      let header ← dump.memory.load 8 (chunkBegin - headerSize)
      -- a chunk of size 0 keeps its tag in its first byte
      if headerSizeOrUnusedBytes header = 0 then
        let first ← dump.memory.load 1 chunkBegin
        return some ⟨chunkAddr, header, chunkBegin, first⟩
      else return some ⟨chunkAddr, header, chunkBegin, tag⟩

variable (depot : Option StackDepot) (info : BlockInfo)

/-- The trace of an allocation, where there is a depot. -/
def inlineTrace (block : BlockRead) (trace : Vector Nat maxTraceSize) :
    Checked (Vector Nat maxTraceSize) :=
  match depot with
  | none => return trace
  | some depot => do
    let hash ← dump.memory.load 4 (block.data + 4 * memTagAllocationTraceIndex)
    collectTraceMaybe depot trace hash

/-- `CheckOOB`, which tells whether all reports are used. -/
def checkOOB (s : Reporting) (blockAddr : Nat) : Checked (Bool × Reporting) :=
  if blockAddr < info.regionBegin ∨ info.regionEnd ≤ blockAddr then return (false, s)
  else do
    let block ← readBlock dump blockAddr
    match block with
    | none => return (false, s)
    | some block =>
      if headerState block.header ≠ chunkStateAllocated ∨
          block.tag ≠ extractTag dump.faultAddr then return (false, s)
      else
        let r ← getAt s.reports s.nextErrorReport
        let allocationTrace ← inlineTrace dump depot block r.allocationTrace
        let allocationTid ← dump.memory.load 4 (block.data + 4 * memTagAllocationTidIndex)
        let reports ← setAt s.reports s.nextErrorReport
          { r with
            errorType :=
              if untagPointer dump.faultAddr < block.chunkAddr then .bufferUnderflow
              else .bufferOverflow
            allocationAddress := block.chunkAddr
            allocationSize := headerSizeOrUnusedBytes block.header
            allocationTrace := allocationTrace
            allocationTid := allocationTid }
        return (s.nextErrorReport + 1 == numErrorReports, ⟨reports, s.nextErrorReport + 1⟩)

/-- The blocks at these distances on both sides. -/
def checkDistances (s : Reporting) : List Nat → Checked Reporting
  | [] => return s
  | i :: rest => do
    let distance := wrap 64 (i * info.blockSize)
    let (all, s) ← checkOOB dump depot info s (wadd 64 info.blockBegin distance)
    if all then return s
    else
      let (all, s) ← checkOOB dump depot info s (wsub 64 info.blockBegin distance)
      if all then return s else checkDistances s rest

def getInlineErrorInfo (classes : SizeClasses) (fuel : Nat) (s : Reporting)
    (minDistance maxDistance : Nat) : Checked Reporting := do
  let info ← findNearestBlock classes dump.regions (untagPointer dump.faultAddr) fuel
  if s.nextErrorReport = numErrorReports then return s
  else
    let (all, s) ← (if minDistance = 0 then checkOOB dump depot info s info.blockBegin
      else return (false, s) : Checked (Bool × Reporting))
    if all then return s
    else
      checkDistances dump depot info s
        (List.range' (max minDistance 1) (maxDistance - max minDistance 1))

end Inline

section Ring

/-- `sizeof(AllocationRingBuffer)` and `sizeof(Entry)`. -/
def ringBufferBytes : Nat := 64
def ringEntryBytes : Nat := 32

def ringBufferElementsFromBytes (bytes : Nat) : Nat :=
  if bytes < ringBufferBytes then 0 else (bytes - ringBufferBytes) / ringEntryBytes

variable (page : PageSize) (faultAddr : Nat) (depot : StackDepot) (ring : Buffer)

/-- A field of `getRingBufferEntry(RingBuffer, N)`. -/
def loadEntry (n offset bytes : Nat) : Checked Nat :=
  ring.loadAt ringBufferBytes (ringBufferElementsFromBytes ring.size) ringEntryBytes n offset bytes

/-- Whether a report names the address. -/
def reported (s : Reporting) (address : Nat) : Checked Bool :=
  (List.range s.nextErrorReport).anyM fun j => do
    let r ← getAt s.reports j
    return r.allocationAddress == address

/-- Whether an entry does not explain the fault. -/
def skipsEntry (s : Reporting) (entryPtr entrySize deallocationTid : Nat) : Checked Bool :=
  if deallocationTid ≠ 0 then
    return faultAddr < entryPtr ∨ wadd 64 entryPtr entrySize ≤ faultAddr
  else if faultAddr < wsub 64 entryPtr page.bytes ∨
      wadd 64 (wadd 64 entryPtr entrySize) page.bytes ≤ faultAddr then return true
  else reported s (untagPointer entryPtr)

/-- The body of the loop over the entries. -/
def checkEntry (s : Reporting) (n : Nat) : Checked Reporting := do
  let entryPtr ← loadEntry ring n 0 8
  if entryPtr = 0 then return s
  else
    let entrySize ← loadEntry ring n 8 8
    let allocationTrace ← loadEntry ring n 16 4
    let allocationTid ← loadEntry ring n 20 4
    let deallocationTrace ← loadEntry ring n 24 4
    let deallocationTid ← loadEntry ring n 28 4
    let skips ← skipsEntry page faultAddr s entryPtr entrySize deallocationTid
    if skips then return s
    else
      let r ← getAt s.reports s.nextErrorReport
      let allocated ← collectTraceMaybe depot r.allocationTrace allocationTrace
      let deallocated ← collectTraceMaybe depot r.deallocationTrace deallocationTrace
      let reports ← setAt s.reports s.nextErrorReport
        { errorType :=
            if deallocationTid ≠ 0 then .useAfterFree
            else if faultAddr < entryPtr then .bufferUnderflow
            else .bufferOverflow
          allocationAddress := untagPointer entryPtr
          allocationSize := entrySize
          allocationTid := allocationTid
          allocationTrace := allocated
          deallocationTid := deallocationTid
          deallocationTrace := deallocated }
      return ⟨reports, s.nextErrorReport + 1⟩

def getRingBufferErrorInfo (depot : Option StackDepot) (ring : Option Buffer) (fuel : Nat)
    (s : Reporting) : Checked Reporting :=
  match ring, depot with
  | some ring, some depot =>
    let elements := ringBufferElementsFromBytes ring.size
    if elements = 0 then return s
    else do
      let pos ← ring.load 8 56
      let first := wsub 64 pos 1
      let last ← loop .exhausted
        (fun state : Nat × Reporting => decide (state.1 ≠ wsub 64 first elements) &&
          decide (state.2.nextErrorReport ≠ numErrorReports))
        (fun state => do
          let s ← checkEntry page faultAddr depot ring state.2 (state.1 % elements)
          return (wsub 64 state.1 1, s))
        fuel (first, s)
      return last.2
  | _, _ => return s

end Ring

/-- `DepotPtr` as a depot, or `none` where it is not valid. -/
def checkDepot (depot : Option Buffer) : Checked (Option (Option StackDepot)) :=
  match depot with
  | none => return some none
  | some buffer =>
    if buffer.size < StackDepot.headerBytes then return none
    else do
      let valid ← StackDepot.isValid ⟨buffer⟩ buffer.size
      if valid then return some (some ⟨buffer⟩) else return none

/-- With memory tagging supported by the allocator. -/
def getErrorInfo (classes : SizeClasses) (page : PageSize) (dump : CrashDump) (fuel : Nat) :
    Checked Reporting :=
  if wadd 64 dump.memoryAddr dump.memory.size < dump.memoryAddr then return Reporting.start
  else do
    let depot ← checkDepot dump.depot
    match depot with
    | none => return Reporting.start
    | some depot =>
      let close ← (if extractTag dump.faultAddr ≠ 0 then
        getInlineErrorInfo dump depot classes fuel Reporting.start 0 2
        else return Reporting.start : Checked Reporting)
      let ring ← getRingBufferErrorInfo page dump.faultAddr depot dump.ringBuffer fuel close
      if extractTag dump.faultAddr ≠ 0 then getInlineErrorInfo dump depot classes fuel ring 2 16
      else return ring

end Scudo.ErrorInfo
