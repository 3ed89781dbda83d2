import Scudo.Chunk.Header

/-!
Words in memory, lowest byte first, and the marker that the frontend leaves at the beginning of a block
whose chunk does not start there.
-/

namespace Scudo.Chunk
open Scudo.Secondary

def load32 (bytes : Nat → UInt8) (addr : Nat) : BitVec 32 :=
  (bytes (addr + 3)).toBitVec ++ (bytes (addr + 2)).toBitVec ++ (bytes (addr + 1)).toBitVec ++
    (bytes addr).toBitVec

def load64 (bytes : Nat → UInt8) (addr : Nat) : BitVec 64 :=
  load32 bytes (addr + 4) ++ load32 bytes addr

/-- The first `size` bytes of a word. -/
def store {w : Nat} (bytes : Nat → UInt8) (addr : Nat) (word : BitVec w) (size : Nat) : Nat → UInt8 :=
  memcpy bytes addr (fun a => UInt8.ofBitVec (byte word (a - addr))) size

def store32 (bytes : Nat → UInt8) (addr : Nat) (word : BitVec 32) : Nat → UInt8 :=
  store bytes addr word 4

def store64 (bytes : Nat → UInt8) (addr : Nat) (word : BitVec 64) : Nat → UInt8 :=
  store bytes addr word 8

def blockMarker : BitVec 32 := 0x44554353

section Memory

variable {bytes bytes' : Nat → UInt8} {addr : Nat}

theorem store_byte {w : Nat} (word : BitVec w) {size k : Nat} (inside : k < size) :
    (store bytes addr word size (addr + k)).toBitVec = byte word k := by
  have value : store bytes addr word size (addr + k) = UInt8.ofBitVec (byte word (addr + k - addr)) :=
    if_pos ⟨Nat.le_add_right _ _, Nat.add_lt_add_left inside _⟩
  rw [value, Nat.add_sub_cancel_left]

theorem load32_store32 (word : BitVec 32) : load32 (store32 bytes addr word) addr = word := by
  have first : (store32 bytes addr word addr).toBitVec = byte word 0 :=
    @store_byte bytes addr 32 word 4 0 (by decide)
  unfold load32
  rw [first]
  unfold store32
  rw [store_byte word (by decide), store_byte word (by decide), store_byte word (by decide)]
  unfold byte
  apply BitVec.eq_of_getLsbD_eq
  intro i lt
  simp only [BitVec.getLsbD_extractLsb', BitVec.getLsbD_append]
  grind

theorem load32_congr (same : ∀ k < 4, bytes' (addr + k) = bytes (addr + k)) :
    load32 bytes' addr = load32 bytes addr := by
  have first : bytes' addr = bytes addr := same 0 (by decide)
  unfold load32
  rw [first, same 1 (by decide), same 2 (by decide), same 3 (by decide)]

theorem load64_congr (same : ∀ k < 8, bytes' (addr + k) = bytes (addr + k)) :
    load64 bytes' addr = load64 bytes addr := by
  unfold load64
  rw [load32_congr fun k lt => same k (by omega), load32_congr fun k lt => ?_]
  rw [Nat.add_assoc]
  exact same (4 + k) (by omega)

theorem load64_store64 (word : BitVec 64) : load64 (store64 bytes addr word) addr = word := by
  have first : (store64 bytes addr word addr).toBitVec = byte word 0 :=
    @store_byte bytes addr 64 word 8 0 (by decide)
  unfold load64 load32
  simp only [Nat.add_assoc]
  rw [first]
  unfold store64
  iterate 7 rw [store_byte word (by decide)]
  unfold byte
  apply BitVec.eq_of_getLsbD_eq
  intro i lt
  simp only [BitVec.getLsbD_extractLsb', BitVec.getLsbD_append]
  grind

theorem load32_of_load64 : load32 bytes addr = (load64 bytes addr).extractLsb' 0 32 := by
  unfold load64
  apply BitVec.eq_of_getLsbD_eq
  intro i lt
  simp only [BitVec.getLsbD_extractLsb', BitVec.getLsbD_append]
  grind

theorem store_outside {w : Nat} (word : BitVec w) {size a : Nat} (outside : a < addr ∨ addr + size ≤ a) :
    store bytes addr word size a = bytes a := memcpy_outside _ _ _ _ _ outside

end Memory

/-- Where a header would have the marker there are the two bits of a state that does not exist. -/
theorem marker_ne_pack {header : UnpackedHeader} (state : header.state ≠ 3) :
    header.pack.extractLsb' 0 32 ≠ blockMarker := by
  intro same
  have field : (header.pack.extractLsb' 0 32).extractLsb' 8 2 = header.state := by
    unfold UnpackedHeader.pack
    apply BitVec.eq_of_getLsbD_eq
    intro i lt
    simp only [BitVec.getLsbD_extractLsb', BitVec.getLsbD_append]
    grind
  rw [same] at field
  exact state (field.symm.trans (by decide))

end Scudo.Chunk
