import Scudo.Frontend.StoredChunk

/-!
What the memory of a block says while it has a chunk: the header is valid, and its offset and the marker
at the beginning of the block lead from the one to the other.
-/

namespace Scudo.Frontend
open Scudo.Secondary
open Scudo.Combined (Origin Backing)

variable (f : Setup)

/-- Where the block ends. -/
def blockEndOf (chunk : StoredChunk) (header : Chunk.UnpackedHeader) : Nat :=
  match chunk.backing with
  | .primary block => block + f.classes.getSizeByClassId header.classId.toNat
  | .secondary block => block.commitBase + block.commitSize

/-- What the header says of the class and the size. -/
def SizeStored (chunk : StoredChunk) (header : Chunk.UnpackedHeader) (size : Nat) : Prop :=
  match chunk.backing with
  | .primary _ => header.classId ≠ 0 ∧
      f.classes.getSizeByClassId header.classId.toNat ≤ 2 ^ 20 ∧
      header.sizeOrUnusedBytes.toNat = size
  | .secondary block => header.classId = 0 ∧
      header.sizeOrUnusedBytes.toNat =
        (block.commitBase + block.commitSize - (chunk.userPtr + size)) % 2 ^ 20

/-- The chunk has this header, and `size` bytes were asked for. -/
structure Held (chunk : StoredChunk) (header : Chunk.UnpackedHeader) (size : Nat) : Prop where
  loads : f.loadHeader chunk.userPtr chunk.bytes = some header
  place : chunk.userPtr = blockOf f.p chunk.backing + f.p.word.chunkHeaderSize +
    header.offset.toNat * f.p.word.minAlignment
  aligned : f.p.word.minAlignment ∣ blockOf f.p chunk.backing
  marked : header.offset ≠ 0 →
    Chunk.load32 chunk.bytes (blockOf f.p chunk.backing) = Chunk.blockMarker ∧
      (Chunk.load32 chunk.bytes (blockOf f.p chunk.backing + 4)).toNat =
        header.offset.toNat * f.p.word.minAlignment
  inside : chunk.userPtr + size ≤ blockEndOf f chunk header
  stop : blockEndOf f chunk header < 2 ^ f.p.word.bits
  sizeStored : SizeStored f chunk header size

variable {f} {chunk : StoredChunk} {header : Chunk.UnpackedHeader} {size ptr : Nat}
  {bytes bytes' : Nat → UInt8}

/-- The end depends on the block and the class only. -/
theorem blockEndOf_congr {header' : Chunk.UnpackedHeader} (classId : header'.classId = header.classId)
    {bytes : Nat → UInt8} :
    blockEndOf f { chunk with bytes := bytes } header' = blockEndOf f chunk header := by
  unfold blockEndOf
  rw [classId]

section Words

theorem minAlignment_ge (word : WordSize) : 8 ≤ word.minAlignment := by cases word <;> decide

/-- The header with the checksum that is stored. -/
def Setup.sealed (f : Setup) (ptr : Nat) (header : Chunk.UnpackedHeader) : Chunk.UnpackedHeader :=
  { header with
    checksum := Chunk.computeHeaderChecksum f.p.word f.algorithm f.crc32 f.cookie (BitVec.ofNat _ ptr)
      header }

theorem loadHeader_storeHeader (header : Chunk.UnpackedHeader) (bytes : Nat → UInt8) :
    f.loadHeader ptr (f.storeHeader ptr header bytes) = some (f.sealed ptr header) := by
  unfold Setup.loadHeader Setup.storeHeader
  rw [Chunk.load64_store64, Chunk.loadHeader_eq, if_pos (Chunk.storeHeader_valid _ _ _ _ _ _)]
  unfold Chunk.storeHeader
  rw [Chunk.unpack_pack]
  rfl

theorem loadHeader_packed (loads : f.loadHeader ptr bytes = some header) :
    Chunk.load64 bytes (wsub f.p.word.bits ptr f.p.word.chunkHeaderSize) = header.pack ∧
      Chunk.isValid f.p.word f.algorithm f.crc32 f.cookie (BitVec.ofNat _ ptr) header.pack = true := by
  unfold Setup.loadHeader at loads
  rw [Chunk.loadHeader_eq] at loads
  split_ifs at loads with valid
  cases loads
  rw [Chunk.pack_unpack]
  exact ⟨rfl, valid⟩

/-- Only the eight bytes of the header matter. -/
theorem loadHeader_congr (same : ∀ k < 8,
    bytes' (wsub f.p.word.bits ptr f.p.word.chunkHeaderSize + k) =
      bytes (wsub f.p.word.bits ptr f.p.word.chunkHeaderSize + k)) :
    f.loadHeader ptr bytes' = f.loadHeader ptr bytes := by
  unfold Setup.loadHeader
  rw [Chunk.load64_congr same]

theorem storeHeader_outside {a : Nat} (above : f.p.word.chunkHeaderSize ≤ ptr)
    (below : ptr < 2 ^ f.p.word.bits)
    (outside : a + f.p.word.chunkHeaderSize < ptr ∨ ptr + 8 ≤ a + f.p.word.chunkHeaderSize) :
    f.storeHeader ptr header bytes a = bytes a := by
  unfold Setup.storeHeader
  rw [wsub_eq below above]
  exact Chunk.store_outside _ (by omega)

end Words

namespace Held

variable (held : Held f chunk header size)
include held

theorem below : chunk.userPtr < 2 ^ f.p.word.bits := by
  have inside := held.inside
  have stop := held.stop
  omega

theorem headerSize_le : f.p.word.chunkHeaderSize ≤ chunk.userPtr := by
  rw [held.place]
  omega

/-- The offset of the header leads to the block. -/
theorem getBlockBegin_eq : f.getBlockBegin chunk.userPtr header = blockOf f.p chunk.backing := by
  have below := held.below
  have place := held.place
  unfold Setup.getBlockBegin
  rw [wsub_eq below held.headerSize_le, wrap_eq (by omega), wsub_eq (by omega) (by omega)]
  omega

/-- A header at the beginning of the block does not look like a marker. -/
theorem unmarked (state : header.state ≠ 3)
    (default : blockOf f.p chunk.backing + f.p.word.chunkHeaderSize = chunk.userPtr) :
    Chunk.load32 chunk.bytes (blockOf f.p chunk.backing) ≠ Chunk.blockMarker := by
  have packed := (loadHeader_packed held.loads).1
  have here : chunk.userPtr - f.p.word.chunkHeaderSize = blockOf f.p chunk.backing := by omega
  rw [wsub_eq held.below held.headerSize_le, here] at packed
  rw [Chunk.load32_of_load64, packed]
  exact Chunk.marker_ne_pack state

/-- The marker, or that there is none, leads to the chunk. -/
theorem getChunkFromBlock_eq (state : header.state ≠ 3) :
    f.getChunkFromBlock chunk.bytes (blockOf f.p chunk.backing) = (chunk.userPtr, header, true) := by
  obtain ⟨packed, valid⟩ := loadHeader_packed held.loads
  have below := held.below
  have place := held.place
  have headerSize := f.p.word.chunkHeaderSize_eq
  have offset : f.getChunkOffsetFromBlock chunk.bytes (blockOf f.p chunk.backing) =
      header.offset.toNat * f.p.word.minAlignment + f.p.word.chunkHeaderSize := by
    unfold Setup.getChunkOffsetFromBlock
    by_cases default : header.offset = 0
    · have none_ : header.offset.toNat * f.p.word.minAlignment = 0 := by
        rw [default]
        exact Nat.zero_mul _
      rw [none_, if_neg (held.unmarked state (by omega)), wadd_eq (by omega)]
    · obtain ⟨marker, value⟩ := held.marked default
      rw [if_pos marker, value, wadd_eq (by omega)]
  have found : wadd f.p.word.bits (blockOf f.p chunk.backing)
      (f.getChunkOffsetFromBlock chunk.bytes (blockOf f.p chunk.backing)) = chunk.userPtr := by
    rw [offset, wadd_eq (by omega)]
    omega
  unfold Setup.getChunkFromBlock
  dsimp only
  rw [found, packed, valid, Chunk.unpack_pack]

/-- Of the memory only the part in front of the pointer matters. -/
theorem congr {bytes : Nat → UInt8}
    (same : ∀ a, blockOf f.p chunk.backing ≤ a → a < chunk.userPtr → bytes a = chunk.bytes a) :
    Held f { chunk with bytes := bytes } header size := by
  have below := held.below
  have above := held.headerSize_le
  have place := held.place
  have headerSize := f.p.word.chunkHeaderSize_eq
  have room := minAlignment_ge f.p.word
  refine ⟨?_, held.place, held.aligned, fun shifted => ?_, held.inside, held.stop, held.sizeStored⟩
  · rw [← held.loads]
    apply loadHeader_congr
    intro k lt
    rw [wsub_eq below above]
    exact same _ (by omega) (by omega)
  · obtain ⟨marker, value⟩ := held.marked shifted
    have marker' : Chunk.load32 bytes (blockOf f.p chunk.backing) = Chunk.blockMarker := by
      rw [← marker]
      exact Chunk.load32_congr fun k lt => same _ (by omega) (by omega)
    have value' : (Chunk.load32 bytes (blockOf f.p chunk.backing + 4)).toNat =
        header.offset.toNat * f.p.word.minAlignment := by
      rw [← value]
      exact congrArg BitVec.toNat (Chunk.load32_congr fun k lt => same _ (by omega) (by omega))
    exact ⟨marker', value'⟩

/-- Storing another header with the same offset. -/
theorem restore {header' : Chunk.UnpackedHeader} {size' : Nat} (offset : header'.offset = header.offset)
    (classId : header'.classId = header.classId) (inside : chunk.userPtr + size' ≤ blockEndOf f chunk header)
    (sizeStored : SizeStored f chunk header' size') :
    Held f { chunk with bytes := f.storeHeader chunk.userPtr header' chunk.bytes }
      (f.sealed chunk.userPtr header') size' := by
  have below := held.below
  have above := held.headerSize_le
  have place := held.place
  have headerSize := f.p.word.chunkHeaderSize_eq
  have room := minAlignment_ge f.p.word
  have ends : blockEndOf f chunk header' = blockEndOf f chunk header := blockEndOf_congr classId
  have sameOffset : (f.sealed chunk.userPtr header').offset = header.offset := offset
  refine ⟨loadHeader_storeHeader header' chunk.bytes, ?_, held.aligned, fun shifted => ?_, ?_, ?_, ?_⟩
  · rw [sameOffset]
    exact place
  · rw [sameOffset] at shifted ⊢
    obtain ⟨marker, value⟩ := held.marked shifted
    have positive : f.p.word.minAlignment ≤ header.offset.toNat * f.p.word.minAlignment := by
      have some_ : 0 < header.offset.toNat := by
        rw [Nat.pos_iff_ne_zero]
        exact fun zero => shifted (BitVec.eq_of_toNat_eq zero)
      exact Nat.le_mul_of_pos_left _ some_
    have kept (a : Nat) (low : a < blockOf f.p chunk.backing + 8) :
        f.storeHeader chunk.userPtr header' chunk.bytes a = chunk.bytes a :=
      storeHeader_outside above below (Or.inl (by omega))
    have marker' := @Chunk.load32_congr chunk.bytes (f.storeHeader chunk.userPtr header' chunk.bytes)
      (blockOf f.p chunk.backing) fun k lt => kept _ (by omega)
    have value' := @Chunk.load32_congr chunk.bytes (f.storeHeader chunk.userPtr header' chunk.bytes)
      (blockOf f.p chunk.backing + 4) fun k lt => kept _ (by omega)
    exact ⟨marker'.trans marker, (congrArg BitVec.toNat value').trans value⟩
  · exact le_of_le_of_eq inside ends.symm
  · exact lt_of_eq_of_lt ends held.stop
  · exact sizeStored

/-- What `reallocate` works with: the end of the block, and a size that is too large where the unused
bytes did not fit into the header. -/
theorem blockEndAndSize_eq : ∃ oldSize,
    f.blockEndAndSize chunk header = some (blockEndOf f chunk header, oldSize) ∧
      size ≤ oldSize ∧ chunk.userPtr + oldSize ≤ blockEndOf f chunk header := by
  have begins := held.getBlockBegin_eq
  have inside := held.inside
  have stop := held.stop
  have stored := held.sizeStored
  have below := held.below
  unfold Setup.blockEndAndSize
  rw [begins]
  obtain ⟨userPtr, backing, bytes⟩ := chunk
  cases backing with
  | primary block =>
    obtain ⟨classId, -, same⟩ := stored
    change block + _ < _ at stop
    rw [if_pos classId]
    refine ⟨_, congrArg some (Prod.ext (wadd_eq stop) rfl), same.ge, ?_⟩
    rw [same]
    exact inside
  | secondary block =>
    obtain ⟨classId, same⟩ := stored
    change block.commitBase + block.commitSize < _ at stop
    change userPtr + size ≤ block.commitBase + block.commitSize at inside
    change userPtr < _ at below
    have cut : header.sizeOrUnusedBytes.toNat ≤
        block.commitBase + block.commitSize - (userPtr + size) := by
      rw [same]
      exact Nat.mod_le _ _
    have blockEnd : secondaryBlockEnd f.p (blockOf f.p (.secondary block)) (.secondary block) =
        some (block.commitBase + block.commitSize) := by
      change (if block.ptr f.p = block.ptr f.p then _ else _) = _
      rw [if_pos rfl]
      exact congrArg some (wadd_eq stop)
    rw [if_neg (not_not.mpr classId), blockEnd]
    refine ⟨_, rfl, ?_, ?_⟩
    · change size ≤ wsub _ _ (wadd _ userPtr _)
      rw [wadd_eq (by omega), wsub_eq (by omega) (by omega)]
      omega
    · change userPtr + wsub _ _ (wadd _ userPtr _) ≤ block.commitBase + block.commitSize
      rw [wadd_eq (by omega), wsub_eq (by omega) (by omega)]
      omega

/-- The size that is stored when the block is kept. -/
theorem sizeStored_resized {newSize : Nat}
    (fits : chunk.userPtr + newSize ≤ blockEndOf f chunk header) :
    SizeStored f chunk { header with
      sizeOrUnusedBytes := BitVec.ofNat 20 (if header.classId ≠ 0 then newSize
        else wsub f.p.word.bits (blockEndOf f chunk header)
          (wadd f.p.word.bits chunk.userPtr newSize)) } newSize := by
  have place := held.place
  have stop := held.stop
  have stored := held.sizeStored
  have headerSize := f.p.word.chunkHeaderSize_eq
  have positive := minAlignment_pos f.p.word
  obtain ⟨userPtr, backing, bytes⟩ := chunk
  cases backing with
  | primary block =>
    obtain ⟨classId, room, -⟩ := stored
    change userPtr = block + _ + _ at place
    change userPtr + newSize ≤ block + _ at fits
    refine ⟨classId, room, ?_⟩
    rw [if_pos classId, BitVec.toNat_ofNat, Nat.mod_eq_of_lt (by omega)]
  | secondary block =>
    obtain ⟨classId, -⟩ := stored
    change userPtr + newSize ≤ block.commitBase + block.commitSize at fits
    change block.commitBase + block.commitSize < _ at stop
    refine ⟨classId, ?_⟩
    rw [if_neg (not_not.mpr classId), BitVec.toNat_ofNat]
    change wsub _ (block.commitBase + block.commitSize) (wadd _ userPtr newSize) % _ = _
    rw [wadd_eq (by omega), wsub_eq (by omega) (by omega)]

theorem resizeInPlace_held {newSize : Nat} (settings : Combined.Settings) (oldSize : Nat)
    (fits : chunk.userPtr + newSize ≤ blockEndOf f chunk header) :
    ∃ header', Held f (f.resizeInPlace settings chunk header newSize (blockEndOf f chunk header)
        oldSize) header' newSize ∧ header'.state = header.state ∧ header'.classId = header.classId := by
  have stop := held.stop
  have filled : Held f { chunk with
      bytes := if newSize < oldSize ∧ Combined.fillContentsOf settings false ≠ .noFill then
          memset chunk.bytes (wadd f.p.word.bits chunk.userPtr newSize)
            (Combined.fillContentsOf settings false).byte (oldSize - newSize)
        else chunk.bytes } header size := by
    apply held.congr
    intro a _ below
    split_ifs
    · rw [wadd_eq (by omega)]
      exact memset_outside _ _ _ _ _ (Or.inl (by omega))
    · rfl
  exact ⟨_, filled.restore rfl rfl fits (held.sizeStored_resized fits), rfl, rfl⟩

/-- Behind the pointer only the bytes that the chunk gives up are written. -/
theorem resizeInPlace_behind {newSize oldSize blockEnd a : Nat} (settings : Combined.Settings)
    (fits : chunk.userPtr + newSize < 2 ^ f.p.word.bits) (behind : chunk.userPtr ≤ a) :
    (f.resizeInPlace settings chunk header newSize blockEnd oldSize).bytes a =
      if newSize < oldSize ∧ Combined.fillContentsOf settings false ≠ .noFill then
        memset chunk.bytes (chunk.userPtr + newSize) (Combined.fillContentsOf settings false).byte
          (oldSize - newSize) a
      else chunk.bytes a := by
  have headerSize := f.p.word.chunkHeaderSize_eq
  have room := minAlignment_ge f.p.word
  unfold Setup.resizeInPlace
  dsimp only
  rw [storeHeader_outside held.headerSize_le held.below (Or.inr (by omega)), wadd_eq fits]
  split_ifs <;> rfl

/-- What the new and the old user range share is kept. -/
theorem resizeInPlace_kept {newSize oldSize blockEnd a : Nat} (settings : Combined.Settings)
    (fits : chunk.userPtr + newSize < 2 ^ f.p.word.bits) (behind : chunk.userPtr ≤ a)
    (shared : a < chunk.userPtr + newSize) :
    (f.resizeInPlace settings chunk header newSize blockEnd oldSize).bytes a = chunk.bytes a := by
  rw [held.resizeInPlace_behind settings fits behind]
  split_ifs
  · exact memset_outside _ _ _ _ _ (Or.inl shared)
  · rfl

/-- With zero filling the rest of the block stays zero. -/
theorem resizeInPlace_zero {newSize oldSize blockEnd stop a : Nat} {settings : Combined.Settings}
    (fits : chunk.userPtr + newSize < 2 ^ f.p.word.bits)
    (zeroFill : Combined.fillContentsOf settings false = .zeroFill) (old : size ≤ oldSize)
    (zero : ∀ a, chunk.userPtr + size ≤ a → a < stop → chunk.bytes a = 0)
    (behind : chunk.userPtr + newSize ≤ a) (below : a < stop) :
    (f.resizeInPlace settings chunk header newSize blockEnd oldSize).bytes a = 0 := by
  rw [held.resizeInPlace_behind settings fits (by omega), zeroFill]
  by_cases given : a < chunk.userPtr + size
  · rw [if_pos ⟨by omega, by decide⟩]
    exact memset_inside _ _ _ _ _ behind (by omega)
  · have rest := zero a (by omega) below
    split_ifs
    · unfold memset
      split_ifs
      · rfl
      · exact rest
    · exact rest

/-- Nothing outside of the block is written. -/
theorem resizeInPlace_outside {newSize oldSize blockEnd a : Nat} (settings : Combined.Settings)
    (fits : chunk.userPtr + newSize < 2 ^ f.p.word.bits)
    (old : chunk.userPtr + oldSize ≤ blockEndOf f chunk header)
    (outside : a < blockOf f.p chunk.backing ∨ blockEndOf f chunk header ≤ a) :
    (f.resizeInPlace settings chunk header newSize blockEnd oldSize).bytes a = chunk.bytes a := by
  have place := held.place
  have inside := held.inside
  have headerSize := f.p.word.chunkHeaderSize_eq
  have room := minAlignment_ge f.p.word
  rcases outside with before | behind
  · unfold Setup.resizeInPlace
    dsimp only
    rw [storeHeader_outside held.headerSize_le held.below (Or.inl (by omega)), wadd_eq fits]
    split_ifs
    · exact memset_outside _ _ _ _ _ (Or.inl (by omega))
    · rfl
  · rw [held.resizeInPlace_behind settings fits (by omega)]
    split_ifs
    · exact memset_outside _ _ _ _ _ (Or.inr (by omega))
    · rfl

/-- Storing a header in another state, as a release does. -/
theorem storeHeader_held {header' : Chunk.UnpackedHeader} (offset : header'.offset = header.offset)
    (classId : header'.classId = header.classId)
    (sizeOrUnusedBytes : header'.sizeOrUnusedBytes = header.sizeOrUnusedBytes) :
    Held f { chunk with bytes := f.storeHeader chunk.userPtr header' chunk.bytes }
      (f.sealed chunk.userPtr header') size := by
  apply held.restore offset classId held.inside
  have stored := held.sizeStored
  unfold SizeStored at stored ⊢
  rw [classId, sizeOrUnusedBytes]
  exact stored

theorem storeHeader_frame {header' : Chunk.UnpackedHeader} {a : Nat}
    (outside : a < blockOf f.p chunk.backing ∨ chunk.userPtr ≤ a) :
    f.storeHeader chunk.userPtr header' chunk.bytes a = chunk.bytes a := by
  have place := held.place
  have headerSize := f.p.word.chunkHeaderSize_eq
  have room := minAlignment_ge f.p.word
  rcases outside with before | behind
  · exact storeHeader_outside held.headerSize_le held.below (Or.inl (by omega))
  · exact storeHeader_outside held.headerSize_le held.below (Or.inr (by omega))

/-- `deallocate` gets as far as to the release. -/
theorem deallocated {checks : Checks} {origin : Origin} {deleteSize : Nat}
    {result : StoredChunk × Option Nat}
    (run : f.deallocate checks chunk origin deleteSize = some result) :
    ∃ asked, f.quarantineOrDeallocateChunk checks chunk header asked = result := by
  unfold Setup.deallocate at run
  rw [held.loads] at run
  dsimp only at run
  split_ifs at run
  split at run
  next => cases run
  next asked found =>
    split_ifs at run
    cases run
    exact ⟨asked, rfl⟩

/-- A chunk leaves the quarantine with its block. -/
theorem recycled {left : StoredChunk} {block : Nat} (run : f.recycle chunk = some (left, block)) :
    block = blockOf f.p chunk.backing ∧
      ∀ a, a < blockOf f.p chunk.backing ∨ chunk.userPtr ≤ a → left.bytes a = chunk.bytes a := by
  unfold Setup.recycle at run
  rw [held.loads] at run
  dsimp only at run
  split_ifs at run
  cases run
  exact ⟨held.getBlockBegin_eq, fun a outside => held.storeHeader_frame outside⟩

theorem released_bytes (checks : Checks) (asked : Nat) {a : Nat}
    (outside : a < blockOf f.p chunk.backing ∨ chunk.userPtr ≤ a) :
    (f.quarantineOrDeallocateChunk checks chunk header asked).1.bytes a = chunk.bytes a :=
  held.storeHeader_frame outside

/-- A release leaves a chunk in the quarantine, or gives its block back. -/
theorem released (checks : Checks) (asked : Nat) :
    (∃ header', Held f (f.quarantineOrDeallocateChunk checks chunk header asked).1 header' size ∧
      header'.classId = header.classId ∧
      ((f.quarantineOrDeallocateChunk checks chunk header asked).2 = none →
        header'.state = quarantined)) ∧
    ∀ block, (f.quarantineOrDeallocateChunk checks chunk header asked).2 = some block →
      block = blockOf f.p chunk.backing := by
  constructor
  · refine ⟨_, held.storeHeader_held rfl rfl rfl, rfl, fun waits => ?_⟩
    by_cases bypass : checks.quarantineCacheSize = 0 ∨
        checks.quarantineMaxChunkSize ≤ wsub f.p.word.bits asked 1 ∨ header.classId = 0
    · exact absurd (waits.symm.trans (if_pos bypass)) (by simp)
    · exact if_neg bypass
  · intro block freed
    unfold Setup.quarantineOrDeallocateChunk at freed
    dsimp only at freed
    rw [Option.ite_none_right_eq_some] at freed
    rw [← held.getBlockBegin_eq]
    exact (Option.some.inj freed.2).symm

end Held

/-- What `reallocate` of a chunk that is held leads to. -/
inductive Reallocates (f : Setup) (settings : Combined.Settings) (checks : Checks) (b : Combined.Backends)
    (large : Secondary.Heap) (chunk : StoredChunk) (header : Chunk.UnpackedHeader)
    (size newSize alignment : Nat) : Setup.Reallocated → Prop
  | refused (tooBig : f.p.word.maxAllowedMallocSize ≤ newSize) :
      Reallocates f settings checks b large chunk header size newSize alignment (.null chunk large)
  | failed (oldSize : Nat) (large' : Secondary.Heap)
      (oldInside : chunk.userPtr + oldSize ≤ blockEndOf f chunk header)
      (leaves : ¬(wadd f.p.word.bits chunk.userPtr newSize ≤ blockEndOf f chunk header ∧
        (oldSize < newSize ∨ oldSize - newSize < f.p.page.bytes)))
      (run : f.allocate settings b large ⟨newSize, alignment, .malloc, false⟩ = some (none, large')) :
      Reallocates f settings checks b large chunk header size newSize alignment (.null chunk large')
  | inPlace (oldSize : Nat) (old : size ≤ oldSize)
      (oldInside : chunk.userPtr + oldSize ≤ blockEndOf f chunk header)
      (valid : newSize < f.p.word.maxAllowedMallocSize)
      (inside : wadd f.p.word.bits chunk.userPtr newSize ≤ blockEndOf f chunk header) :
      Reallocates f settings checks b large chunk header size newSize alignment
        (.inPlace (f.resizeInPlace settings chunk header newSize (blockEndOf f chunk header) oldSize))
  | moved (oldSize : Nat) (new : StoredChunk) (large' : Secondary.Heap) (old : size ≤ oldSize)
      (oldInside : chunk.userPtr + oldSize ≤ blockEndOf f chunk header)
      (leaves : ¬(wadd f.p.word.bits chunk.userPtr newSize ≤ blockEndOf f chunk header ∧
        (oldSize < newSize ∨ oldSize - newSize < f.p.page.bytes)))
      (run : f.allocate settings b large ⟨newSize, alignment, .malloc, false⟩ =
        some (some new, large')) :
      Reallocates f settings checks b large chunk header size newSize alignment
        (.moved { new with
            bytes := memcpy new.bytes new.userPtr
              (fun a => chunk.bytes (chunk.userPtr + (a - new.userPtr))) (min newSize oldSize) } large'
          (f.quarantineOrDeallocateChunk checks chunk header oldSize).1
          (f.quarantineOrDeallocateChunk checks chunk header oldSize).2)

theorem Held.reallocates {settings : Combined.Settings} {checks : Checks} {b : Combined.Backends}
    {large : Secondary.Heap} {newSize alignment : Nat} {result : Setup.Reallocated}
    (held : Held f chunk header size)
    (run : f.reallocate settings checks b large chunk newSize alignment = some result) :
    Reallocates f settings checks b large chunk header size newSize alignment result := by
  obtain ⟨oldSize, bounds, old, oldInside⟩ := held.blockEndAndSize_eq
  unfold Setup.reallocate at run
  rw [held.loads] at run
  dsimp only at run
  rw [bounds] at run
  split_ifs at run with tooBig misaligned state mismatch
  · cases run
    exact Reallocates.refused tooBig
  · dsimp only at run
    by_cases stays : wadd f.p.word.bits chunk.userPtr newSize ≤ blockEndOf f chunk header ∧
        (oldSize < newSize ∨ oldSize - newSize < f.p.page.bytes)
    · rw [if_pos stays] at run
      cases run
      exact Reallocates.inPlace oldSize old oldInside (by omega) stays.1
    · rw [if_neg stays] at run
      split at run
      next => cases run
      next large' allocates =>
        cases run
        exact Reallocates.failed oldSize large' oldInside stays allocates
      next new large' allocates =>
        cases run
        exact Reallocates.moved oldSize new large' old oldInside stays allocates

/-- When `reallocate` keeps the block. -/
theorem reallocate_inPlace {settings : Combined.Settings} {checks : Checks} {b : Combined.Backends}
    {large : Secondary.Heap} {newSize alignment blockEnd oldSize : Nat}
    (valid : newSize < f.p.word.maxAllowedMallocSize) (aligned : f.p.word.minAlignment ∣ chunk.userPtr)
    (loads : f.loadHeader chunk.userPtr chunk.bytes = some header) (state : header.state = allocated)
    (origin : checks.deallocTypeMismatch = true → header.originOrWasZeroed = originOf .malloc)
    (bounds : f.blockEndAndSize chunk header = some (blockEnd, oldSize))
    (fits : wadd f.p.word.bits chunk.userPtr newSize ≤ blockEnd)
    (near : oldSize < newSize ∨ oldSize - newSize < f.p.page.bytes) :
    f.reallocate settings checks b large chunk newSize alignment =
      some (.inPlace (f.resizeInPlace settings chunk header newSize blockEnd oldSize)) := by
  unfold Setup.reallocate
  rw [if_neg (by omega), if_neg (not_not.mpr aligned), loads]
  dsimp only
  rw [if_neg (not_not.mpr state), if_neg (fun both => both.2 (origin both.1)), bounds]
  dsimp only
  rw [if_pos ⟨fits, near⟩]

section Init

variable {classId block userPtr sizeOrUnusedBytes : Nat} {origin : Origin} {backing : Backing}
  {fill : FillContentsMode}

/-- The offset in units of the least alignment, which no field truncates. -/
theorem initHeader_offset (f : Setup) (classId : Nat) (origin : Origin) (sizeOrUnusedBytes : Nat)
    (above : block + f.p.word.chunkHeaderSize ≤ userPtr)
    (userAligned : f.p.word.minAlignment ∣ userPtr) (aligned : f.p.word.minAlignment ∣ block)
    (close : userPtr < block + f.p.word.chunkHeaderSize + 2 ^ 16 * f.p.word.minAlignment)
    (below : userPtr < 2 ^ f.p.word.bits) :
    (f.initHeader classId origin block userPtr sizeOrUnusedBytes).offset.toNat *
        f.p.word.minAlignment = userPtr - (block + f.p.word.chunkHeaderSize) ∧
      ((f.initHeader classId origin block userPtr sizeOrUnusedBytes).offset ≠ 0 →
        block + f.p.word.chunkHeaderSize ≠ userPtr) := by
  have positive := minAlignment_pos f.p.word
  have default : wadd f.p.word.bits block f.p.word.chunkHeaderSize =
      block + f.p.word.chunkHeaderSize := wadd_eq (by omega)
  unfold Setup.initHeader
  dsimp only
  rw [default]
  split_ifs with shifted
  · have distance : wsub f.p.word.bits userPtr (block + f.p.word.chunkHeaderSize) =
        userPtr - (block + f.p.word.chunkHeaderSize) := wsub_eq below above
    have whole : f.p.word.minAlignment ∣ userPtr - (block + f.p.word.chunkHeaderSize) := by
      apply Nat.dvd_sub userAligned
      rw [f.p.word.chunkHeaderSize_eq]
      exact Nat.dvd_add aligned (dvd_refl _)
    have small : (userPtr - (block + f.p.word.chunkHeaderSize)) / f.p.word.minAlignment < 2 ^ 16 :=
      (Nat.div_lt_iff_lt_mul positive).mpr (by omega)
    rw [distance, BitVec.toNat_ofNat, Nat.mod_eq_of_lt small, Nat.div_mul_cancel whole]
    exact ⟨rfl, fun _ => shifted⟩
  · rw [not_not] at shifted
    rw [shifted, Nat.sub_self]
    exact ⟨Nat.zero_mul _, fun nonzero => absurd rfl nonzero⟩

/-- What `initChunk` leaves, whatever was in the block before. -/
theorem initChunk_held (begins : blockOf f.p backing = block)
    (above : block + f.p.word.chunkHeaderSize ≤ userPtr)
    (userAligned : f.p.word.minAlignment ∣ userPtr) (aligned : f.p.word.minAlignment ∣ block)
    (close : userPtr < block + f.p.word.chunkHeaderSize + 2 ^ 16 * f.p.word.minAlignment)
    (inside : userPtr + size ≤ blockEndOf f ⟨userPtr, backing, bytes⟩
      (f.initHeader classId origin block userPtr sizeOrUnusedBytes))
    (stop : blockEndOf f ⟨userPtr, backing, bytes⟩
      (f.initHeader classId origin block userPtr sizeOrUnusedBytes) < 2 ^ f.p.word.bits)
    (sizeStored : SizeStored f ⟨userPtr, backing, bytes⟩
      (f.initHeader classId origin block userPtr sizeOrUnusedBytes) size) :
    Held f (f.initChunk classId origin backing block userPtr sizeOrUnusedBytes fill bytes)
      (f.sealed userPtr (f.initHeader classId origin block userPtr sizeOrUnusedBytes)) size := by
  have below : userPtr < 2 ^ f.p.word.bits := by omega
  have headerSize := f.p.word.chunkHeaderSize_eq
  have room := minAlignment_ge f.p.word
  have small := minAlignment_le f.p.word
  have wide := f.p.word.bits_le
  have default : wadd f.p.word.bits block f.p.word.chunkHeaderSize =
      block + f.p.word.chunkHeaderSize := wadd_eq (by omega)
  have distance : wsub f.p.word.bits userPtr (block + f.p.word.chunkHeaderSize) =
      userPtr - (block + f.p.word.chunkHeaderSize) := wsub_eq below above
  obtain ⟨offset, shift⟩ := initHeader_offset f classId origin sizeOrUnusedBytes above userAligned
    aligned close below
  refine ⟨loadHeader_storeHeader _ _, ?_, ?_, fun shifted => ?_, inside, stop, sizeStored⟩
  · change userPtr = blockOf f.p backing + _ +
      (f.initHeader classId origin block userPtr sizeOrUnusedBytes).offset.toNat * _
    rw [offset, begins]
    omega
  · change _ ∣ blockOf f.p backing
    rw [begins]
    exact aligned
  · have different := shift shifted
    have further : block + f.p.word.chunkHeaderSize + f.p.word.minAlignment ≤ userPtr := by
      obtain ⟨units, same⟩ : f.p.word.minAlignment ∣ userPtr - (block + f.p.word.chunkHeaderSize) := by
        rw [← offset]
        exact Nat.dvd_mul_left _ _
      have some_ : 0 < units := by
        rw [Nat.pos_iff_ne_zero]
        rintro rfl
        omega
      have least := Nat.le_mul_of_pos_right f.p.word.minAlignment some_
      omega
    change Chunk.load32 (f.initChunk _ _ _ _ _ _ _ _).bytes (blockOf f.p backing) = _ ∧
      (Chunk.load32 (f.initChunk _ _ _ _ _ _ _ _).bytes (blockOf f.p backing + 4)).toNat =
        (f.initHeader classId origin block userPtr sizeOrUnusedBytes).offset.toNat * _
    unfold Setup.initChunk
    dsimp only
    rw [begins, offset, default, if_pos different, distance]
    generalize (if classId ≠ 0 ∧ fill ≠ .noFill then _ else bytes) = filled
    have kept (a : Nat) (low : a < block + 8) (bytes : Nat → UInt8) :
        f.storeHeader userPtr (f.initHeader classId origin block userPtr sizeOrUnusedBytes) bytes a =
          bytes a := storeHeader_outside (by omega) below (Or.inl (by omega))
    constructor
    · have before (word : BitVec 32) :
          Chunk.load32 (Chunk.store32 (Chunk.store32 filled block Chunk.blockMarker) (block + 4) word)
            block = Chunk.load32 (Chunk.store32 filled block Chunk.blockMarker) block :=
        Chunk.load32_congr fun k lt => Chunk.store_outside _ (Or.inl (by omega))
      rw [Chunk.load32_congr fun k lt => kept _ (by omega) _, before, Chunk.load32_store32]
    · rw [Chunk.load32_congr fun k lt => kept _ (by omega) _, Chunk.load32_store32, BitVec.toNat_ofNat,
        Nat.mod_eq_of_lt (by omega)]

/-- Behind the pointer there is what the block had, or the fill. -/
theorem initChunk_behind {a : Nat} (above : block + f.p.word.chunkHeaderSize ≤ userPtr)
    (below : userPtr < 2 ^ f.p.word.bits) (behind : userPtr ≤ a) :
    (f.initChunk classId origin backing block userPtr sizeOrUnusedBytes fill bytes).bytes a =
      if classId ≠ 0 ∧ fill ≠ .noFill then
        memset bytes block fill.byte (f.classes.getSizeByClassId classId) a
      else bytes a := by
  have headerSize := f.p.word.chunkHeaderSize_eq
  have room := minAlignment_ge f.p.word
  unfold Setup.initChunk
  dsimp only
  rw [storeHeader_outside (by omega) below (Or.inr (by omega))]
  have marked (filled : Nat → UInt8) (word : BitVec 32) :
      Chunk.store32 (Chunk.store32 filled block Chunk.blockMarker) (block + 4) word a = filled a :=
    (Chunk.store_outside word (Or.inr (by omega))).trans
      (Chunk.store_outside Chunk.blockMarker (Or.inr (by omega)))
  split_ifs <;> first | exact marked _ _ | rfl

end Init

end Scudo.Frontend
