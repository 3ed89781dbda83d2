import Scudo.Chunk.Checksum
import Scudo.Secondary.Types

/-!
The packed header in front of a chunk, with its checksum: what is stored is loaded again, and a change
of one byte of the header or of the pointer is found.
-/

namespace Scudo.Chunk
open Scudo.Lib Scudo.Secondary

/-- The fields, each with the bits that it has. -/
structure UnpackedHeader where
  classId : BitVec 8
  state : BitVec 2
  originOrWasZeroed : BitVec 2
  sizeOrUnusedBytes : BitVec 20
  offset : BitVec 16
  checksum : BitVec 16
  deriving DecidableEq, Repr

/-- Bit fields start with the lowest bits. -/
def UnpackedHeader.pack (header : UnpackedHeader) : BitVec 64 :=
  header.checksum ++ header.offset ++ header.sizeOrUnusedBytes ++ header.originOrWasZeroed ++
    header.state ++ header.classId

def unpack (packed : BitVec 64) : UnpackedHeader where
  classId := packed.extractLsb' 0 8
  state := packed.extractLsb' 8 2
  originOrWasZeroed := packed.extractLsb' 10 2
  sizeOrUnusedBytes := packed.extractLsb' 12 20
  offset := packed.extractLsb' 32 16
  checksum := packed.extractLsb' 48 16

section Header

variable (word : WordSize) (algorithm : ChecksumAlgorithm)
  (crc32 : BitVec 32 → BitVec word.bits → BitVec 32) (cookie : BitVec 32) (ptr : BitVec word.bits)

/-- `HeaderHolder`. -/
def headerHolder (packed : BitVec 64) : List (BitVec word.bits) :=
  (List.range (64 / word.bits)).map fun k => packed.extractLsb' (k * word.bits) word.bits

def computeHeaderChecksum (header : UnpackedHeader) : BitVec 16 :=
  let zeroChecksumHeader := { header with checksum := 0 }
  computeChecksum algorithm crc32 cookie ptr (headerHolder word zeroChecksumHeader.pack)

/-- What is stored at the header of `ptr`. -/
def storeHeader (newUnpackedHeader : UnpackedHeader) : BitVec 64 :=
  UnpackedHeader.pack { newUnpackedHeader with
    checksum := computeHeaderChecksum word algorithm crc32 cookie ptr newUnpackedHeader }

/-- The header of `ptr`, where `packed` is stored there. Nothing stands for `reportHeaderCorruption`. -/
def loadHeader (packed : BitVec 64) : Option UnpackedHeader :=
  let newUnpackedHeader := unpack packed
  if newUnpackedHeader.checksum ≠
      computeHeaderChecksum word algorithm crc32 cookie ptr newUnpackedHeader then none
  else some newUnpackedHeader

def isValid (packed : BitVec 64) : Bool :=
  let newUnpackedHeader := unpack packed
  newUnpackedHeader.checksum == computeHeaderChecksum word algorithm crc32 cookie ptr newUnpackedHeader

end Header

theorem unpack_pack (header : UnpackedHeader) : unpack header.pack = header := by
  obtain ⟨classId, state, originOrWasZeroed, sizeOrUnusedBytes, offset, checksum⟩ := header
  unfold unpack UnpackedHeader.pack
  congr 1
  all_goals
    apply BitVec.eq_of_getLsbD_eq
    intro i lt
    simp only [BitVec.getLsbD_extractLsb', BitVec.getLsbD_append]
    grind

theorem pack_unpack (packed : BitVec 64) : (unpack packed).pack = packed := by
  unfold unpack UnpackedHeader.pack
  apply BitVec.eq_of_getLsbD_eq
  intro i lt
  simp only [BitVec.getLsbD_extractLsb', BitVec.getLsbD_append]
  grind

section Bytes

/-- The words of the header have its bytes. -/
theorem headerHolder_bytes (word : WordSize) (packed : BitVec 64) :
    (headerHolder word packed).flatMap (fun data => bytes data (word.bits / 8)) = bytes packed 8 := by
  have inner : ∀ k i, i < word.bits / 8 →
      byte (packed.extractLsb' (k * word.bits) word.bits) i = byte packed (k * (word.bits / 8) + i) := by
    intro k i lt
    have whole : word.bits = 8 * (word.bits / 8) := by cases word <;> rfl
    unfold byte
    apply BitVec.eq_of_getLsbD_eq
    intro j inside
    simp only [BitVec.getLsbD_extractLsb']
    grind
  have words : ∀ k, bytes (packed.extractLsb' (k * word.bits) word.bits) (word.bits / 8) =
      (List.range (word.bits / 8)).map fun i => byte packed (k * (word.bits / 8) + i) :=
    fun k => List.map_congr_left fun i member => inner k i (List.mem_range.mp member)
  unfold headerHolder
  rw [List.flatMap_map]
  simp only [words]
  cases word <;> rfl

theorem foldl_bsd (word : WordSize) (array : List (BitVec word.bits)) (sum : BitVec 16) :
    array.foldl computeBSDChecksum sum =
      (array.flatMap fun data => bytes data (word.bits / 8)).foldl bsdStep sum := by
  induction array generalizing sum with
  | nil => rfl
  | cons data rest ih =>
    rw [List.foldl_cons, ih, List.flatMap_cons, List.foldl_append]
    unfold computeBSDChecksum
    rw [bsdLoop_eq]

/-- The BSD checksum is a fold over the bytes of the pointer and of the header without checksum. -/
theorem computeHeaderChecksum_bsd (word : WordSize) (crc32 : BitVec 32 → BitVec word.bits → BitVec 32)
    (cookie : BitVec 32) (ptr : BitVec word.bits) (header : UnpackedHeader) :
    computeHeaderChecksum word .bsd crc32 cookie ptr header =
      (bytes ptr (word.bits / 8) ++ bytes (UnpackedHeader.pack { header with checksum := 0 }) 8).foldl
        bsdStep (cookie.setWidth 16) := by
  unfold computeHeaderChecksum computeChecksum
  dsimp only
  rw [foldl_bsd, headerHolder_bytes, List.foldl_append]
  unfold computeBSDChecksum
  rw [bsdLoop_eq]

/-- The checksum is in the last two bytes, and nothing else is there. -/
theorem byte_zeroChecksum (header : UnpackedHeader) (i : Nat) :
    byte (UnpackedHeader.pack { header with checksum := 0 }) i =
      if i < 6 then byte header.pack i else 0 := by
  unfold byte UnpackedHeader.pack
  apply BitVec.eq_of_getLsbD_eq
  intro j lt
  split_ifs with low
  · simp only [BitVec.getLsbD_extractLsb', BitVec.getLsbD_append]
    grind
  · simp only [BitVec.getLsbD_extractLsb', BitVec.getLsbD_append]
    grind

theorem checksum_bytes (packed : BitVec 64) :
    byte packed 6 = (unpack packed).checksum.extractLsb' 0 8 ∧
      byte packed 7 = (unpack packed).checksum.extractLsb' 8 8 ∧
      (unpack packed).checksum = byte packed 7 ++ byte packed 6 := by
  unfold unpack byte
  refine ⟨?_, ?_, ?_⟩
  all_goals
    apply BitVec.eq_of_getLsbD_eq
    intro j lt
    simp only [BitVec.getLsbD_extractLsb', BitVec.getLsbD_append]
    grind

theorem checksum_eq_iff {packed packed' : BitVec 64} :
    (unpack packed').checksum = (unpack packed).checksum ↔
      byte packed' 6 = byte packed 6 ∧ byte packed' 7 = byte packed 7 := by
  obtain ⟨low, high, both⟩ := checksum_bytes packed
  obtain ⟨low', high', both'⟩ := checksum_bytes packed'
  constructor
  · intro same
    exact ⟨by rw [low, low', same], by rw [high, high', same]⟩
  · rintro ⟨six, seven⟩
    rw [both, both', six, seven]

/-- Words that differ in this byte and in no other of the first `count` ones. -/
structure DifferInByte {w : Nat} (count i : Nat) (data data' : BitVec w) : Prop where
  inside : i < count
  here : byte data' i ≠ byte data i
  elsewhere : ∀ j, j < count → j ≠ i → byte data' j = byte data j

theorem DifferInByte.bytes {w count i : Nat} {data data' : BitVec w}
    (differ : DifferInByte count i data data') :
    FoldDetect.DifferAt i (bytes data' count) (bytes data count) := by
  obtain ⟨inside, here, elsewhere⟩ := differ
  have at_ : ∀ (x : BitVec w) j, j < count → (Chunk.bytes x count)[j]? = some (byte x j) := by
    intro x j lt
    unfold Chunk.bytes
    rw [List.getElem?_map, List.getElem?_range lt, Option.map_some]
  have length : ∀ x : BitVec w, (Chunk.bytes x count).length = count := by
    intro x
    unfold Chunk.bytes
    rw [List.length_map, List.length_range]
  refine ⟨?_, ?_, (length data').trans (length data).symm⟩
  · rw [at_ data' i inside, at_ data i inside]
    exact fun same => here (Option.some.inj same)
  · intro j other
    by_cases lt : j < count
    · rw [at_ data' j lt, at_ data j lt, elsewhere j lt other]
    · rw [List.getElem?_eq_none (by rw [length]; omega), List.getElem?_eq_none (by rw [length]; omega)]

end Bytes

section Detection

variable (word : WordSize) (crc32 : BitVec 32 → BitVec word.bits → BitVec 32) (cookie : BitVec 32)
  (ptr : BitVec word.bits)

theorem isValid_iff (algorithm : ChecksumAlgorithm) (packed : BitVec 64) :
    isValid word algorithm crc32 cookie ptr packed = true ↔
      (unpack packed).checksum =
        computeHeaderChecksum word algorithm crc32 cookie ptr (unpack packed) := beq_iff_eq

theorem loadHeader_eq (algorithm : ChecksumAlgorithm) (packed : BitVec 64) :
    loadHeader word algorithm crc32 cookie ptr packed =
      if isValid word algorithm crc32 cookie ptr packed then some (unpack packed) else none := by
  unfold loadHeader isValid
  simp [ite_not]

/-- The checksum does not depend on the checksum field. -/
theorem storeHeader_valid (algorithm : ChecksumAlgorithm) (header : UnpackedHeader) :
    isValid word algorithm crc32 cookie ptr (storeHeader word algorithm crc32 cookie ptr header) =
      true := by
  rw [isValid_iff]
  unfold storeHeader
  rw [unpack_pack]
  rfl

/-- A valid header is not valid any more after a change of one byte. -/
theorem isValid_change {packed packed' : BitVec 64} {i : Nat}
    (valid : isValid word .bsd crc32 cookie ptr packed = true)
    (differ : DifferInByte 8 i packed packed') :
    isValid word .bsd crc32 cookie ptr packed' = false := by
  rw [isValid_iff, computeHeaderChecksum_bsd] at valid
  rw [Bool.eq_false_iff, ne_eq, isValid_iff, computeHeaderChecksum_bsd]
  intro valid'
  have zeroed : ∀ x : BitVec 64, ∀ j,
      byte (UnpackedHeader.pack { unpack x with checksum := 0 }) j = if j < 6 then byte x j else 0 := by
    intro x j
    rw [byte_zeroChecksum, pack_unpack]
  by_cases data : i < 6
  · -- The checksum field is the same, and the fold is not.
    have field : (unpack packed').checksum = (unpack packed).checksum :=
      checksum_eq_iff.mpr ⟨differ.elsewhere 6 (by omega) (by omega),
        differ.elsewhere 7 (by omega) (by omega)⟩
    have differ' : DifferInByte 8 i (UnpackedHeader.pack { unpack packed with checksum := 0 })
        (UnpackedHeader.pack { unpack packed' with checksum := 0 }) := by
      refine ⟨differ.inside, ?_, ?_⟩
      · rw [zeroed, zeroed, if_pos data, if_pos data]
        exact differ.here
      · intro j inside other
        rw [zeroed, zeroed, differ.elsewhere j inside other]
    exact bsdStep_tells.foldl_ne (differ'.bytes.append_left _) _ (valid'.symm.trans (field.trans valid))
  · -- The fold is the same, and the checksum field is not.
    have same : bytes (UnpackedHeader.pack { unpack packed' with checksum := 0 }) 8 =
        bytes (UnpackedHeader.pack { unpack packed with checksum := 0 }) 8 := by
      refine List.map_congr_left fun j member => ?_
      rw [zeroed, zeroed]
      split_ifs with low
      · exact differ.elsewhere j (List.mem_range.mp member) (by omega)
      · rfl
    rw [same, ← valid, checksum_eq_iff] at valid'
    obtain ⟨six, seven⟩ := valid'
    have inside := differ.inside
    obtain rfl | rfl : i = 6 ∨ i = 7 := by omega
    · exact differ.here six
    · exact differ.here seven

/-- A valid header is not valid for a pointer that differs in one byte. -/
theorem isValid_otherPointer {packed : BitVec 64} {ptr' : BitVec word.bits} {i : Nat}
    (valid : isValid word .bsd crc32 cookie ptr packed = true)
    (differ : DifferInByte (word.bits / 8) i ptr ptr') :
    isValid word .bsd crc32 cookie ptr' packed = false := by
  rw [isValid_iff, computeHeaderChecksum_bsd] at valid
  rw [Bool.eq_false_iff, ne_eq, isValid_iff, computeHeaderChecksum_bsd]
  intro valid'
  exact bsdStep_tells.foldl_ne (differ.bytes.append_right _) _ (valid'.symm.trans valid)

/-- What is stored is loaded, and a change of one byte of the stored header or of the pointer is
reported. -/
theorem header_detects_corruption (header : UnpackedHeader) :
    (∀ algorithm, ∃ checksum,
      loadHeader word algorithm crc32 cookie ptr (storeHeader word algorithm crc32 cookie ptr header) =
        some { header with checksum := checksum }) ∧
    (∀ packed' i, DifferInByte 8 i (storeHeader word .bsd crc32 cookie ptr header) packed' →
      isValid word .bsd crc32 cookie ptr packed' = false ∧
        loadHeader word .bsd crc32 cookie ptr packed' = none) ∧
    ∀ ptr' i, DifferInByte (word.bits / 8) i ptr ptr' →
      isValid word .bsd crc32 cookie ptr' (storeHeader word .bsd crc32 cookie ptr header) = false ∧
        loadHeader word .bsd crc32 cookie ptr' (storeHeader word .bsd crc32 cookie ptr header) =
          none := by
  have stored := storeHeader_valid word crc32 cookie ptr .bsd header
  refine ⟨?_, ?_, ?_⟩
  · intro algorithm
    refine ⟨computeHeaderChecksum word algorithm crc32 cookie ptr header, ?_⟩
    rw [loadHeader_eq, if_pos (storeHeader_valid word crc32 cookie ptr algorithm header)]
    unfold storeHeader
    rw [unpack_pack]
  · intro packed' i differ
    have invalid := isValid_change word crc32 cookie ptr stored differ
    rw [loadHeader_eq, invalid]
    exact ⟨rfl, rfl⟩
  · intro ptr' i differ
    have invalid := isValid_otherPointer word crc32 cookie ptr stored differ
    rw [loadHeader_eq, invalid]
    exact ⟨rfl, rfl⟩

end Detection

end Scudo.Chunk
