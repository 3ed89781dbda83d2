import Scudo.Lib.FoldDetect

/-!
`computeChecksum`. The BSD checksum rotates the sum and adds a byte, for every byte of its words, the
lowest first.
-/

namespace Scudo.Chunk
open Scudo.Lib

/-- `HashAlgorithm`. -/
inductive ChecksumAlgorithm where
  | bsd
  | hardwareCRC32
  deriving DecidableEq, Repr

def bsdRotate (sum : BitVec 16) : BitVec 16 := (sum >>> 1) ||| ((sum &&& 1) <<< 15)

section Words

variable {w : Nat}

/-- The loop of `computeBSDChecksum`, for the bytes that are left. -/
def bsdLoop : Nat → BitVec 16 → BitVec w → BitVec 16
  | 0, sum, _ => sum
  | left + 1, sum, data => bsdLoop left (bsdRotate sum + (data &&& 0xff).setWidth 16) (data >>> 8)

def computeBSDChecksum (sum : BitVec 16) (data : BitVec w) : BitVec 16 := bsdLoop (w / 8) sum data

/-- `crc32` is `computeHardwareCRC32`. -/
def computeChecksum (algorithm : ChecksumAlgorithm) (crc32 : BitVec 32 → BitVec w → BitVec 32)
    (seed : BitVec 32) (value : BitVec w) (array : List (BitVec w)) : BitVec 16 :=
  match algorithm with
  | .hardwareCRC32 =>
    let crc := array.foldl crc32 (crc32 seed value)
    (crc ^^^ (crc >>> 16)).setWidth 16
  | .bsd => array.foldl computeBSDChecksum (computeBSDChecksum (seed.setWidth 16) value)

/-- A byte of a word. -/
def byte (data : BitVec w) (i : Nat) : BitVec 8 := data.extractLsb' (8 * i) 8

def bytes (data : BitVec w) (count : Nat) : List (BitVec 8) := (List.range count).map (byte data)

end Words

def bsdStep (sum : BitVec 16) (byte : BitVec 8) : BitVec 16 := bsdRotate sum + byte.setWidth 16

/-- The lowest bit becomes the highest one, and the others move down. -/
theorem bsdRotate_getLsbD (sum : BitVec 16) :
    (bsdRotate sum).getLsbD 15 = sum.getLsbD 0 ∧
      ∀ i < 15, (bsdRotate sum).getLsbD i = sum.getLsbD (i + 1) := by
  unfold bsdRotate
  constructor
  · simp
  · intro i lt
    simp [lt, Nat.add_comm]

theorem bsdRotate_injective : Function.Injective bsdRotate := by
  intro x y same
  obtain ⟨topX, restX⟩ := bsdRotate_getLsbD x
  obtain ⟨topY, restY⟩ := bsdRotate_getLsbD y
  apply BitVec.eq_of_getLsbD_eq
  intro i lt
  cases i with
  | zero => rw [← topX, ← topY, same]
  | succ i => rw [← restX i (by omega), ← restY i (by omega), same]

theorem bsdStep_tells : FoldDetect.Tells bsdStep where
  state := by
    intro b x y same
    exact bsdRotate_injective ((BitVec.add_left_inj _).mp same)
  element := by
    intro s x y same
    have wide : x.setWidth 16 = y.setWidth 16 := (BitVec.add_right_inj _).mp same
    apply BitVec.eq_of_toNat_eq
    have numbers := congrArg BitVec.toNat wide
    rw [BitVec.toNat_setWidth, BitVec.toNat_setWidth] at numbers
    have ltX := x.isLt
    have ltY := y.isLt
    omega

section Bytes

variable {w : Nat}

theorem low_byte (data : BitVec w) : (data &&& 0xff).setWidth 16 = (byte data 0).setWidth 16 := by
  apply BitVec.eq_of_getLsbD_eq
  intro i lt
  have mask : Nat.testBit 255 i = decide (i < 8) := Nat.testBit_two_pow_sub_one 8 i
  have inside : data.getLsbD i = true → i < w := BitVec.lt_of_getLsbD
  simp only [byte, BitVec.getLsbD_setWidth, BitVec.getLsbD_and, BitVec.getLsbD_extractLsb',
    BitVec.ofNat_eq_ofNat, BitVec.getLsbD_ofNat, mask, Nat.mul_zero, Nat.zero_add]
  grind

theorem byte_shift (data : BitVec w) (i : Nat) : byte (data >>> 8) i = byte data (i + 1) := by
  apply BitVec.eq_of_getLsbD_eq
  intro j lt
  have position : 8 + (8 * i + j) = 8 * (i + 1) + j := by omega
  simp only [byte, BitVec.getLsbD_extractLsb', BitVec.getLsbD_ushiftRight, position]

theorem bsdLoop_eq (count : Nat) (sum : BitVec 16) (data : BitVec w) :
    bsdLoop count sum data = (bytes data count).foldl bsdStep sum := by
  induction count generalizing sum data with
  | zero => rfl
  | succ count ih =>
    have rest : byte (data >>> 8) = byte data ∘ Nat.succ := funext (byte_shift data)
    unfold bsdLoop bytes
    rw [ih, low_byte, List.range_succ_eq_map, List.map_cons, List.map_map, List.foldl_cons, ← rest]
    rfl

end Bytes

end Scudo.Chunk
