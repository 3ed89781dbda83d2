import Scudo.ErrorInfo.Reports
import Scudo.ErrorInfo.Words
import Scudo.Tagging.Runs

/-!
What a fault says of a chunk: the memory around the fault and its tags are copied out of the process, and
where the pointer of an allocated chunk was used beside the chunk, the report names that chunk.
-/

namespace Scudo.Tagging
open Scudo.Lib MemoryTags Checked Config
open Scudo.Frontend (Setup Held allocated)
open Scudo.ErrorInfo (CrashDump Reporting ErrorReport ErrorType StackDepot BlockInfo Fault numErrorReports
  findNearestBlock readBlock checkOOB checkDistances getInlineErrorInfo getRingBufferErrorInfo getErrorInfo)

section Header

theorem headerState_pack (header : Chunk.UnpackedHeader) :
    ErrorInfo.headerState header.pack.toNat = header.state.toNat := by
  have field : header.state = header.pack.extractLsb' 8 2 :=
    congrArg Chunk.UnpackedHeader.state (Chunk.unpack_pack header).symm
  rw [field, BitVec.extractLsb'_toNat]
  exact Nat.and_two_pow_sub_one_eq_mod _ 2

theorem headerSizeOrUnusedBytes_pack (header : Chunk.UnpackedHeader) :
    ErrorInfo.headerSizeOrUnusedBytes header.pack.toNat = header.sizeOrUnusedBytes.toNat := by
  have field : header.sizeOrUnusedBytes = header.pack.extractLsb' 12 20 :=
    congrArg Chunk.UnpackedHeader.sizeOrUnusedBytes (Chunk.unpack_pack header).symm
  rw [field, BitVec.extractLsb'_toNat]
  exact Nat.and_two_pow_sub_one_eq_mod _ 20

end Header

section Reads

variable {c : Config} {dump : CrashDump} {m : Memory} {a block tag userPtr size : Nat}

/-- The memory and the tags were copied as they were at the fault. -/
structure Copies (dump : CrashDump) (m : Memory) : Prop where
  aligned : 16 ∣ dump.memoryAddr
  bytes : ∀ i < dump.memory.size, dump.memory.byte i = m.bytes (dump.memoryAddr + i)
  tags : ∀ i < dump.memoryTags.size, (dump.memoryTags.byte i).toNat = m.tagAt (dump.memoryAddr + 16 * i)
  fits : dump.memoryAddr + dump.memory.size < 2 ^ 64

/-- A part of the memory that was copied. -/
def Covers (dump : CrashDump) (first last : Nat) : Prop :=
  dump.memoryAddr ≤ first ∧ last ≤ dump.memoryAddr + dump.memory.size

theorem Copies.load32 (copies : Copies dump m) (covers : Covers dump a (a + 4)) {index : Int}
    (place : index = (a : Int) - dump.memoryAddr) :
    dump.memory.load 4 index = .ok (Chunk.load32 m.bytes a).toNat := by
  obtain ⟨above, below⟩ := covers
  have natural : index.toNat = a - dump.memoryAddr := by omega
  unfold ErrorInfo.Buffer.load
  rw [if_pos ⟨by omega, by omega⟩, natural]
  apply congrArg Except.ok
  apply ErrorInfo.littleEndian_four
  intro k lt
  rw [copies.bytes _ (by omega)]
  congr 1
  omega

theorem Copies.load64 (copies : Copies dump m) (covers : Covers dump a (a + 8)) {index : Int}
    (place : index = (a : Int) - dump.memoryAddr) :
    dump.memory.load 8 index = .ok (Chunk.load64 m.bytes a).toNat := by
  obtain ⟨above, below⟩ := covers
  have natural : index.toNat = a - dump.memoryAddr := by omega
  unfold ErrorInfo.Buffer.load
  rw [if_pos ⟨by omega, by omega⟩, natural]
  apply congrArg Except.ok
  apply ErrorInfo.littleEndian_eight
  intro k lt
  rw [copies.bytes _ (by omega)]
  congr 1
  omega

theorem Copies.load8 (copies : Copies dump m) (covers : Covers dump a (a + 1)) {index : Int}
    (place : index = (a : Int) - dump.memoryAddr) :
    dump.memory.load 1 index = .ok (m.bytes a).toNat := by
  obtain ⟨above, below⟩ := covers
  have natural : index.toNat = a - dump.memoryAddr := by omega
  have here : dump.memoryAddr + (a - dump.memoryAddr) = a := by omega
  unfold ErrorInfo.Buffer.load
  rw [if_pos ⟨by omega, by omega⟩, natural]
  unfold ErrorInfo.littleEndian ErrorInfo.littleEndian
  rw [copies.bytes _ (by omega), here]
  rfl

theorem Copies.getGranule_eq (copies : Copies dump m) (aligned : 16 ∣ a) (covers : Covers dump a (a + 16)) :
    ErrorInfo.getGranule dump a = .ok (some (((a - dump.memoryAddr : Nat) : Int), m.tagAt a)) := by
  obtain ⟨above, below⟩ := covers
  have first := copies.aligned
  have fits := copies.fits
  have count := dump.tags
  have data : dump.memory.address (a - dump.memoryAddr) = .ok ((a - dump.memoryAddr : Nat) : Int) :=
    if_pos (by omega)
  have place : dump.memoryAddr + 16 * ((a - dump.memoryAddr) / 16) = a := by omega
  have tag : dump.memoryTags.load 1 ((a - dump.memoryAddr) / 16 : Nat) = .ok (m.tagAt a) := by
    unfold ErrorInfo.Buffer.load
    rw [if_pos ⟨by omega, by omega⟩]
    unfold ErrorInfo.littleEndian ErrorInfo.littleEndian
    rw [Int.toNat_natCast, copies.tags _ (by omega), place]
    rfl
  unfold ErrorInfo.getGranule ErrorInfo.archMemoryTagGranuleSize
  rw [wadd_eq (by omega), wadd_eq fits, wsub_eq (by omega) above, if_neg (by omega), data, ok_bind, tag]
  rfl

/-- The offset that the beginning of the block has, as the process itself reads it. -/
theorem Copies.getChunkOffsetFromBlock_eq (copies : Copies dump m) (covers : Covers dump a (a + 16))
    {index : Int} (place : index = (a : Int) - dump.memoryAddr) :
    ErrorInfo.getChunkOffsetFromBlock dump index = .ok (c.f.getChunkOffsetFromBlock m.bytes a) := by
  obtain ⟨above, below⟩ := covers
  have marker := copies.load32 ⟨above, (by omega : a + 4 ≤ _)⟩ place
  have offset := @Copies.load32 dump m (a + 4) copies ⟨by omega, by omega⟩ (index + 4) (by omega)
  have marked : (Chunk.load32 m.bytes a).toNat = ErrorInfo.blockMarker ↔
      Chunk.load32 m.bytes a = Chunk.blockMarker := (BitVec.toNat_inj (y := Chunk.blockMarker))
  unfold ErrorInfo.getChunkOffsetFromBlock Setup.getChunkOffsetFromBlock
  rw [marker, ok_bind, c.bits_eq, c.headerSize_eq]
  by_cases shifted : Chunk.load32 m.bytes a = Chunk.blockMarker
  · rw [if_pos (marked.mpr shifted), if_pos shifted, offset, ok_bind]
    rfl
  · rw [if_neg (mt marked.mp shifted), if_neg shifted]
    rfl

/-- What is read of a block with a chunk. -/
theorem readBlock_live (copies : Copies dump m)
    (live : c.Live m tag userPtr size block) (room : userPtr < c.stop block)
    (covers : Covers dump block (userPtr + 16)) : ∃ read, readBlock dump block = .ok (some read) ∧
      read.chunkAddr = userPtr ∧ read.data = (userPtr : Int) - dump.memoryAddr ∧ read.tag = tag ∧
      ErrorInfo.headerState read.header = 1 ∧ ErrorInfo.headerSizeOrUnusedBytes read.header = size := by
  obtain ⟨-, allowed, tagged, header, holds⟩ := live
  obtain ⟨above, stops, -, aligned, alignedPtr⟩ := holds.bounds
  obtain ⟨low, high⟩ := covers
  have fits := copies.fits
  have found := holds.held.getChunkFromBlock_eq (by rw [holds.state]; decide)
  have place : wadd 64 block (c.f.getChunkOffsetFromBlock m.bytes block) = userPtr := by
    have chunk := congrArg Prod.fst found
    rw [← c.bits_eq]
    exact chunk
  have packed : Chunk.load64 m.bytes (userPtr - 16) = header.pack := by
    have loaded := (Frontend.loadHeader_packed holds.loads).1
    rw [c.bits_eq, c.headerSize_eq, wsub_eq (by omega) (by omega)] at loaded
    exact loaded
  have granule := copies.getGranule_eq aligned ⟨low, (by omega : block + 16 ≤ _)⟩
  have chunk := copies.getGranule_eq alignedPtr ⟨(by omega : _ ≤ userPtr), high⟩
  have offset := @Copies.getChunkOffsetFromBlock_eq c dump m block copies ⟨low, by omega⟩
    ((block - dump.memoryAddr : Nat) : Int) (by omega)
  have word := @Copies.load64 dump m (userPtr - 16) copies ⟨by omega, by omega⟩
    (((userPtr - dump.memoryAddr : Nat) : Int) - ErrorInfo.headerSize) (by
      unfold ErrorInfo.headerSize
      omega)
  have first := @Copies.load8 dump m userPtr copies ⟨by omega, by omega⟩
    ((userPtr - dump.memoryAddr : Nat) : Int) (by omega)
  have sized := headerSizeOrUnusedBytes_pack header
  rw [holds.size_eq] at sized
  have state := headerState_pack header
  rw [holds.state] at state
  have data : ((userPtr - dump.memoryAddr : Nat) : Int) = (userPtr : Int) - dump.memoryAddr := by omega
  unfold readBlock
  rw [granule, ok_bind]
  dsimp only
  rw [offset, ok_bind, place, chunk, ok_bind]
  dsimp only
  rw [word, ok_bind, packed, sized]
  by_cases empty : size = 0
  · rw [if_pos empty, first, ok_bind]
    have small : tag < 2 ^ 8 := by
      have lt := allowed.1
      omega
    have stashed : (m.bytes userPtr).toNat = tag := by
      rw [tagged.empty empty room, UInt8.toNat_ofNat_of_lt' small]
    exact ⟨_, rfl, rfl, data, stashed, state, sized⟩
  · rw [if_neg empty]
    have reach := (stopOf_bounds userPtr size).2.1
    exact ⟨_, rfl, rfl, data, tagged.inside userPtr le_rfl (by omega), state, sized⟩

end Reads

/-- What a report says of an access through `ptr` beside its chunk. -/
structure Describes (m : Memory) (ptr size faultAddr : Nat) (report : ErrorReport) : Prop where
  errorType : report.errorType =
    if untagPointer faultAddr < untagPointer ptr then .bufferUnderflow else .bufferOverflow
  address : report.allocationAddress = untagPointer ptr
  size : report.allocationSize = size
  tid : report.allocationTid = (Chunk.load32 m.bytes (untagPointer ptr - 4)).toNat

section Search

variable {c : Config} {dump : CrashDump} {m : Memory} {tag userPtr size j k : Nat} {depot : Option StackDepot}
  {info : BlockInfo} {s : Reporting}

/-- The block of the chunk gives a report. -/
theorem checkOOB_live (copies : Copies dump m) (live : c.Live m tag userPtr size (c.block k))
    (is : c.IsBlock (c.block k)) (room : userPtr < c.stop (c.block k))
    (covers : Covers dump (c.block k) (userPtr + 16)) (tagged : extractTag dump.faultAddr = tag)
    (region : info.regionBegin ≤ c.block k ∧ c.block k < info.regionEnd)
    (left : s.nextErrorReport < numErrorReports) :
    Gives (checkOOB dump depot info s (c.block k)) fun result =>
      result.2.Has (Describes m (pointer tag userPtr) size dump.faultAddr) := by
  obtain ⟨low, high⟩ := covers
  obtain ⟨header, holds⟩ := live.holds
  have above := holds.bounds.1
  have below := is.below
  have untagged : untagPointer (pointer tag userPtr) = userPtr := untagPointer_pointer (by omega)
  obtain ⟨read, reads, address, data, sameTag, state, sized⟩ := readBlock_live copies live room ⟨low, high⟩
  have word := @Copies.load32 dump m (userPtr - 4) copies ⟨by omega, by omega⟩
    (read.data + 4 * ErrorInfo.memTagAllocationTidIndex) (by
      rw [data]
      unfold ErrorInfo.memTagAllocationTidIndex
      omega)
  have matching : ¬(ErrorInfo.headerState read.header ≠ ErrorInfo.chunkStateAllocated ∨
      read.tag ≠ ErrorInfo.extractTag dump.faultAddr) :=
    not_or.mpr ⟨not_not.mpr state, not_not.mpr (sameTag.trans tagged.symm)⟩
  unfold checkOOB
  rw [if_neg (by omega), reads, ok_bind]
  dsimp only
  rw [if_neg matching]
  apply Gives.skip
  intro r
  apply Gives.skip
  intro allocationTrace
  rw [word, ok_bind, address, sized]
  have sets (report : ErrorReport) : Gives (ErrorInfo.setAt s.reports s.nextErrorReport report)
      fun reports => s.Adds ⟨reports, s.nextErrorReport + 1⟩ report :=
    ⟨fun _ run => ErrorInfo.setAt_adds run⟩
  apply (sets _).bind
  intro reports adds
  apply Gives.pure
  apply adds.has left
  refine ⟨?_, untagged.symm, rfl, ?_⟩
  · rw [untagged]
    rfl
  · rw [untagged]

/-- The search close to the fault reaches the blocks on both sides. -/
theorem getInlineErrorInfo_close (copies : Copies dump m) (live : c.Live m tag userPtr size (c.block k))
    (inside : k < c.count) (room : userPtr < c.stop (c.block k))
    (covers : Covers dump (c.block k) (userPtr + 16)) (tagged : extractTag dump.faultAddr = tag)
    {classes : Primary.SizeClasses} {fuel : Nat}
    (nearest : findNearestBlock classes dump.regions (ErrorInfo.untagPointer dump.faultAddr) fuel = .ok info)
    (near : info.blockBegin = c.block j ∧ info.blockSize = c.blockSize)
    (region : info.regionBegin = c.base ∧ info.regionEnd = c.block c.count)
    (close : j = k ∨ j + 1 = k ∨ k + 1 = j) :
    Gives (getInlineErrorInfo dump depot classes fuel Reporting.start 0 2)
      (Reporting.Has (Describes m (pointer tag userPtr) size dump.faultAddr)) := by
  have is := isBlock inside
  have last : c.stop (c.block k) ≤ c.block c.count := stop_le inside
  have first := c.block_lt_stop k
  have below := is.below
  have above := is.above
  have bounds : info.regionBegin ≤ c.block k ∧ c.block k < info.regionEnd := by omega
  have size := c.blockSize_bounds
  have distance : wrap 64 (1 * c.blockSize) = c.blockSize := by
    rw [Nat.one_mul, wrap_eq (by omega)]
  have own (s : Reporting) (left : s.nextErrorReport < numErrorReports) :=
    @checkOOB_live c dump m tag userPtr _ k depot info s copies live is room covers tagged bounds left
  obtain ⟨here, blockSize⟩ := near
  unfold getInlineErrorInfo
  rw [nearest, ok_bind, if_neg (by decide), if_pos rfl, here]
  rcases close with rfl | rfl | rfl
  · apply (own _ (by decide)).bind
    intro checked has
    apply Gives.ite (fun _ => Gives.pure has)
    intro _
    exact (ErrorInfo.checkDistances_extends _).mono fun t more => has.extends more
  · apply (ErrorInfo.checkOOB_gives _).bind
    rintro ⟨all, checked⟩ more
    have left : checked.nextErrorReport ≤ 1 := more.le
    obtain rfl : all = false := more.goesOn (by decide)
    have after : wadd 64 (c.block j) (wrap 64 (1 * info.blockSize)) = c.block (j + 1) := by
      have next : c.block j + c.blockSize = c.block (j + 1) := c.block_succ j
      rw [blockSize, distance, wadd_eq (by omega), next]
    change Gives (checkDistances dump depot info checked [1]) _
    unfold checkDistances
    dsimp only
    rw [here, after]
    apply (own _ (lt_of_le_of_lt left (by decide))).bind
    intro next has
    apply Gives.ite (fun _ => Gives.pure has)
    intro _
    apply (ErrorInfo.checkOOB_extends _).bind
    intro last more
    exact Gives.ite (fun _ => Gives.pure (has.extends more)) fun _ => Gives.pure (has.extends more)
  · apply (ErrorInfo.checkOOB_gives _).bind
    rintro ⟨all, checked⟩ more
    have left : checked.nextErrorReport ≤ 1 := more.le
    obtain rfl : all = false := more.goesOn (by decide)
    have before : wsub 64 (c.block (k + 1)) (wrap 64 (1 * info.blockSize)) = c.block k := by
      have next : c.block k + c.blockSize = c.block (k + 1) := c.block_succ k
      rw [blockSize, distance, ← next, wsub_eq (by omega) (Nat.le_add_left _ _), Nat.add_sub_cancel]
    change Gives (checkDistances dump depot info checked [1]) _
    unfold checkDistances
    apply (ErrorInfo.checkOOB_gives _).bind
    rintro ⟨all, next⟩ again
    have both : next.nextErrorReport ≤ checked.nextErrorReport + 1 := again.le
    have left : checked.nextErrorReport + 1 < numErrorReports :=
      lt_of_le_of_lt (Nat.succ_le_succ left) (by decide)
    obtain rfl : all = false := again.goesOn left
    dsimp only
    rw [if_neg Bool.false_ne_true, here, before]
    apply (own _ (lt_of_le_of_lt both left)).bind
    intro last has
    exact Gives.ite (fun _ => Gives.pure has) fun _ => Gives.pure has

end Search

/-- What is known of the process where it is that of the heap: the regions, and memory that holds a chunk
and the beginning of its block. -/
structure DumpOf (c : Config) (classes : Primary.SizeClasses) (dump : CrashDump) (m : Memory) : Prop where
  copies : Copies dump m
  small : dump.memory.size ≤ 2 ^ 47
  inside : c.classId < classes.numClasses
  blockSize : classes.getSizeByClassId c.classId = c.blockSize
  regionBeg : (dump.regions c.classId).regionBeg = c.base
  allocatedUser : (dump.regions c.classId).allocatedUser = c.count * c.blockSize

section Main

variable {c : Config} {classes : Primary.SizeClasses} {dump : CrashDump} {m : Memory} {j : Nat}

/-- A depot that is not valid ends everything. -/
theorem getErrorInfo_rejected {page : PageSize} {fuel : Nat} {t : Reporting}
    (rejected : ErrorInfo.checkDepot dump.depot = .ok none)
    (run : getErrorInfo classes page dump fuel = .ok t) : t = Reporting.start := by
  unfold getErrorInfo at run
  rw [rejected, ok_bind] at run
  split at run
  · cases run
    rfl
  · cases run
    rfl

/-- The search finds the block of the fault. -/
theorem findNearestBlock_block (of : DumpOf c classes dump m)
    (others : ∀ i < classes.numClasses, i ≠ Primary.batchClassId → i ≠ c.classId →
      untagPointer dump.faultAddr < (dump.regions i).regionBeg ∨
        (dump.regions i).regionBeg + (dump.regions i).allocatedUser < untagPointer dump.faultAddr)
    (inside : j < c.count)
    (here : c.block j ≤ untagPointer dump.faultAddr ∧ untagPointer dump.faultAddr < c.stop (c.block j))
    (fuel : Nat) :
    findNearestBlock classes dump.regions (ErrorInfo.untagPointer dump.faultAddr) (fuel + 1) = .ok
      ⟨c.block j, c.blockSize, c.base, c.block c.count⟩ := by
  have is := isBlock inside
  have below := is.below
  have above := is.above
  have last : c.stop (c.block j) ≤ c.block c.count := stop_le inside
  have most := c.fits
  change c.block c.count + _ ≤ _ at most
  have positive := c.blockSize_bounds.1
  have owns : ErrorInfo.Owns classes dump.regions (ErrorInfo.untagPointer dump.faultAddr) c.classId := by
    refine ⟨of.inside, c.classId_pos.ne', ?_, ?_, ?_, ?_, others⟩
    · rw [of.blockSize, of.allocatedUser]
      exact Nat.dvd_mul_left _ _
    · rw [of.regionBeg]
      exact above.trans here.1
    · rw [of.regionBeg, of.allocatedUser]
      exact lt_of_lt_of_le here.2 last
    · rw [of.regionBeg, of.allocatedUser]
      change c.block c.count < _
      omega
  have quotient : (ErrorInfo.untagPointer dump.faultAddr - c.base) / c.blockSize = j := by
    change (untagPointer dump.faultAddr - c.base) / c.blockSize = j
    unfold stop block at here
    rw [Nat.div_eq_iff (by omega)]
    omega
  rw [ErrorInfo.findNearestBlock_inside owns, of.blockSize, of.regionBeg, of.allocatedUser, quotient]
  rfl

/-- In every state, where the pointer of an allocated chunk is used in the chunk's block or in one of
the blocks beside it, `getErrorInfo` gives a report that names the chunk, whatever else it finds, unless
it rejects the depot: then it gives no report at all. A chunk of size zero has its tag in its first
byte, which has to be in the block. -/
theorem accesses_reported {stray : Prop} {s : Heap} {k ptr size : Nat}
    (reached : (system c stray).Reachable s) (inside : k < c.count)
    (get : s.blocks k = .allocated ptr size) (room : untagPointer ptr < c.stop (c.block k))
    (of : DumpOf c classes dump s.mem) (covers : Covers dump (c.block k) (untagPointer ptr + 16))
    (others : ∀ i < classes.numClasses, i ≠ Primary.batchClassId → i ≠ c.classId →
      untagPointer dump.faultAddr < (dump.regions i).regionBeg ∨
        (dump.regions i).regionBeg + (dump.regions i).allocatedUser < untagPointer dump.faultAddr)
    (there : j < c.count)
    (here : c.block j ≤ untagPointer dump.faultAddr ∧ untagPointer dump.faultAddr < c.stop (c.block j))
    (close : j = k ∨ j + 1 = k ∨ k + 1 = j) (tagged : extractTag dump.faultAddr = extractTag ptr)
    (page : PageSize) {fuel : Nat} (enough : ErrorInfo.enoughSteps dump ≤ fuel) :
    ∃ t, getErrorInfo classes page dump fuel = .ok t ∧
      (ErrorInfo.checkDepot dump.depot ≠ .ok none → t.Has (Describes s.mem ptr size dump.faultAddr)) ∧
      (ErrorInfo.checkDepot dump.depot = .ok none → t = Reporting.start) := by
  have sound := reachable_sound c reached
  have block := sound.blocks k inside
  rw [get] at block
  obtain ⟨tag, userPtr, rfl, live⟩ := block
  obtain ⟨header, holds⟩ := live.holds
  obtain ⟨above, stops, -, -, -⟩ := holds.bounds
  have is := isBlock inside
  have below := is.below
  have positive := c.f.p.page.pos
  rw [untagPointer_pointer (by omega)] at room covers
  rw [extractTag_pointer live.allowed.1 (by omega)] at tagged
  have steps : 1 ≤ fuel := le_trans (by decide) ((Nat.le_max_left _ _).trans enough)
  obtain ⟨fuel, rfl⟩ := Nat.exists_eq_add_of_le' steps
  have nearest := findNearestBlock_block of others there here fuel
  have tagNonzero : ErrorInfo.extractTag dump.faultAddr ≠ 0 := fun zero => live.nonzero (tagged.symm.trans zero)
  have fits := of.copies.fits
  obtain ⟨t, run, -⟩ := ErrorInfo.getErrorInfo_ends classes page dump of.small enough
  refine ⟨t, run, ?_, fun rejected => getErrorInfo_rejected rejected run⟩
  intro accepted
  have gives : Gives (getErrorInfo classes page dump (fuel + 1))
      (Reporting.Has (Describes s.mem (pointer tag userPtr) size dump.faultAddr)) := by
    have valid : Gives (ErrorInfo.checkDepot dump.depot) (· ≠ none) :=
      ⟨fun depot run none_ => accepted (none_ ▸ run)⟩
    unfold getErrorInfo
    rw [wadd_eq fits, if_neg (Nat.not_lt.mpr (Nat.le_add_right _ _))]
    apply valid.bind
    intro depot found
    cases depot with
    | none => exact absurd rfl found
    | some depot =>
      dsimp only
      rw [if_pos tagNonzero]
      apply (getInlineErrorInfo_close of.copies live inside room covers tagged nearest ⟨rfl, rfl⟩ ⟨rfl, rfl⟩
        close).bind
      intro first has
      apply (ErrorInfo.getRingBufferErrorInfo_extends _ _ _).bind
      intro second more
      rw [if_pos tagNonzero]
      exact (ErrorInfo.getInlineErrorInfo_extends _ _ _ _).mono fun t again =>
        (has.extends more).extends again
  exact gives.result t run

/-- The first block of `sevenKilobytes` is copied, and no other class has a region. -/
def firstBlockDump (m : Memory) (faultAddr : Nat) (small : faultAddr < 2 ^ 64) : CrashDump where
  faultAddr := faultAddr
  depot := none
  regions := fun i => ⟨if i = 27 then 0x10000000 else 0, if i = 27 then 28672 else 0, by split_ifs <;> decide,
    by split_ifs <;> decide⟩
  ringBuffer := none
  memory := ⟨7168, fun i => m.bytes (0x10000000 + i), by decide⟩
  memoryTags := ⟨448, fun i => UInt8.ofNat (m.tagAt (0x10000000 + 16 * i)), by decide⟩
  memoryAddr := 0x10000000
  faultAddr_lt := small
  memoryAddr_lt := by decide
  tags := (by decide : 448 = 7168 / 16)

theorem firstBlockDump_of {stray : Prop} {s : Heap} (reached : (system sevenKilobytes stray).Reachable s)
    {faultAddr : Nat} (small : faultAddr < 2 ^ 64) :
    DumpOf sevenKilobytes Primary.defaultSizeClassMap (firstBlockDump s.mem faultAddr small) s.mem := by
  have tags := (reachable_sound sevenKilobytes reached).tags 0 (by decide)
  have aligned : 16 ∣ 0x10000000 := by decide
  have fits : 0x10000000 + 7168 < 2 ^ 64 := by decide
  have short : 7168 ≤ 2 ^ 47 := by decide
  refine ⟨⟨aligned, fun i _ => rfl, fun i lt => ?_, fits⟩, short, by decide, by decide, rfl, rfl⟩
  change i < 448 at lt
  change (UInt8.ofNat (s.mem.tagAt (0x10000000 + 16 * i))).toNat = s.mem.tagAt (0x10000000 + 16 * i)
  have granule := tags (0x10000000 + 16 * i) (Nat.le_add_right 0x10000000 _)
    (by change _ < 0x10000000 + 7168; omega)
  apply UInt8.toNat_ofNat_of_lt'
  rcases granule with zero | allowed
  · rw [zero]
    decide
  · have small := allowed.1
    change _ < 2 ^ 8
    omega

/-- A write to the header in front of the chunk. -/
theorem accesses_reported_first : ∃ (s : Heap) (ptr : Nat) (dump : CrashDump) (t : Reporting),
    s.blocks 0 = .allocated ptr 5000 ∧ untagPointer dump.faultAddr + 16 = untagPointer ptr ∧
      getErrorInfo Primary.defaultSizeClassMap PageSize.small dump (ErrorInfo.enoughSteps dump) = .ok t ∧
      t.Has (Describes s.mem ptr 5000 dump.faultAddr) := by
  obtain ⟨s, ptr, reached, blocks⟩ :=
    allocate_reachable (k := 0) (empty_reachable True) (by decide) (Or.inl rfl)
  have get : s.blocks 0 = .allocated ptr 5000 := by rw [blocks]; rfl
  have block := (reachable_sound sevenKilobytes reached).blocks 0 (by decide)
  rw [get] at block
  obtain ⟨tag, userPtr, rfl, live⟩ := block
  obtain ⟨header, holds⟩ := live.holds
  obtain ⟨above, stops, -, -, -⟩ := holds.bounds
  have tagSmall := live.allowed.1
  change 0x10000000 + 16 ≤ userPtr at above
  change userPtr + 5000 ≤ 0x10000000 + 7168 at stops
  have small : pointer tag (userPtr - 16) < 2 ^ 64 := by
    unfold pointer
    omega
  have of := firstBlockDump_of reached small
  have untagged : untagPointer (pointer tag userPtr) = userPtr := untagPointer_pointer (by omega)
  have front : untagPointer (pointer tag (userPtr - 16)) = userPtr - 16 := untagPointer_pointer (by omega)
  have sameTag : extractTag (pointer tag (userPtr - 16)) = extractTag (pointer tag userPtr) := by
    rw [extractTag_pointer tagSmall (by omega), extractTag_pointer tagSmall (by omega)]
  have room : untagPointer (pointer tag userPtr) < 0x10000000 + 7168 := by omega
  have covers : untagPointer (pointer tag userPtr) + 16 ≤ 0x10000000 + 7168 := by omega
  have others : ∀ i, i ≠ 27 → (if i = 27 then 0x10000000 else 0) + (if i = 27 then 28672 else 0) <
      untagPointer (pointer tag (userPtr - 16)) := by
    intro i other
    rw [if_neg other, if_neg other]
    omega
  have low : 0x10000000 ≤ untagPointer (pointer tag (userPtr - 16)) := by omega
  have high : untagPointer (pointer tag (userPtr - 16)) < 0x10000000 + 7168 := by omega
  have reported := @accesses_reported sevenKilobytes Primary.defaultSizeClassMap
    (firstBlockDump s.mem _ small) 0 True s 0 _ 5000 reached (by decide) get room of
    ⟨Nat.le_refl 0x10000000, covers⟩ (fun i _ _ other => Or.inr (others i other)) (by decide) ⟨low, high⟩
    (Or.inl rfl) sameTag PageSize.small _ le_rfl
  obtain ⟨t, run, has, -⟩ := reported
  refine ⟨s, _, firstBlockDump s.mem _ small, t, get, ?_, run, has nofun⟩
  change untagPointer (pointer tag (userPtr - 16)) + 16 = untagPointer (pointer tag userPtr)
  rw [front, untagged]
  omega

end Main

end Scudo.Tagging
