import Mathlib.Tactic.Ring
import Scudo.Chunk.Memory
import Scudo.ErrorInfo.Buffers

/-!
The bytes of a buffer as the words that the process itself stores and loads.
-/

namespace Scudo.ErrorInfo
open Scudo.Chunk

variable {byte bytes : Nat → UInt8} {index addr : Nat}

theorem toNat_append {v w : Nat} (x : BitVec v) (y : BitVec w) :
    (x ++ y).toNat = y.toNat + 2 ^ w * x.toNat := by
  rw [BitVec.toNat_append, ← Nat.shiftLeft_add_eq_or_of_lt y.isLt, Nat.shiftLeft_eq]
  ring

theorem littleEndian_four (same : ∀ k < 4, byte (index + k) = bytes (addr + k)) :
    littleEndian byte index 4 = (load32 bytes addr).toNat := by
  have first : byte index = bytes addr := same 0 (by decide)
  unfold load32
  simp only [toNat_append, littleEndian, UInt8.toNat_toBitVec, Nat.add_assoc]
  rw [first, same 1 (by decide), same 2 (by decide), same 3 (by decide)]
  rfl

theorem littleEndian_succ (byte : Nat → UInt8) (index bytes : Nat) :
    littleEndian byte index (bytes + 1) =
      (byte index).toNat + 2 ^ 8 * littleEndian byte (index + 1) bytes := rfl

theorem littleEndian_add (byte : Nat → UInt8) (index first second : Nat) :
    littleEndian byte index (first + second) = littleEndian byte index first +
      2 ^ (8 * first) * littleEndian byte (index + first) second := by
  induction first generalizing index with
  | zero =>
    rw [Nat.zero_add, Nat.mul_zero, Nat.pow_zero, Nat.one_mul, Nat.add_zero]
    exact (Nat.zero_add _).symm
  | succ first ih =>
    rw [Nat.add_right_comm, littleEndian_succ, littleEndian_succ, ih, Nat.mul_succ, Nat.pow_add,
      Nat.add_assoc index 1 first, Nat.add_comm 1 first]
    ring

theorem littleEndian_eight (same : ∀ k < 8, byte (index + k) = bytes (addr + k)) :
    littleEndian byte index 8 = (load64 bytes addr).toNat := by
  have low := @littleEndian_four byte bytes index addr fun k lt => same k (by omega)
  have high := @littleEndian_four byte bytes (index + 4) (addr + 4) fun k lt => by
    rw [Nat.add_assoc, Nat.add_assoc]
    exact same (4 + k) (by omega)
  unfold load64
  rw [toNat_append, ← low, ← high]
  exact littleEndian_add byte index 4 4

section Outside

variable {w size a : Nat} {word : BitVec w}

theorem load32_outside (outside : addr + 4 ≤ a ∨ a + size ≤ addr) :
    load32 (store bytes a word size) addr = load32 bytes addr :=
  load32_congr fun k lt => store_outside word (by omega)

theorem load64_outside (outside : addr + 8 ≤ a ∨ a + size ≤ addr) :
    load64 (store bytes a word size) addr = load64 bytes addr :=
  load64_congr fun k lt => store_outside word (by omega)

end Outside

end Scudo.ErrorInfo
