import Scudo.Common
import Scudo.Lib.Checked

/-!
What the crash handler has of another process: buffers of which the size is known and any byte may
have any value. Every access to one, and to an array, checks its index; that no check fails is to
be proved. The layouts are those of 64-bit Linux.
-/

namespace Scudo.ErrorInfo
open Scudo.Lib.Checked

inductive Fault where
  | outside (index : Int)
  | uninitialized
  | exhausted
  deriving DecidableEq, Repr

abbrev Checked := Except Fault

structure Buffer where
  size : Nat
  byte : Nat → UInt8
  size_lt : size < 2 ^ 64

/-- `bytes` bytes from an index on, the least significant one first. -/
def littleEndian (byte : Nat → UInt8) (index : Nat) : Nat → Nat
  | 0 => 0
  | bytes + 1 => (byte index).toNat + 2 ^ 8 * littleEndian byte (index + 1) bytes

theorem littleEndian_lt (byte : Nat → UInt8) (index bytes : Nat) :
    littleEndian byte index bytes < 2 ^ (8 * bytes) := by
  induction bytes generalizing index with
  | zero => exact Nat.one_pos
  | succ bytes ih =>
    have first : (byte index).toNat < 2 ^ 8 := (byte index).toNat_lt
    have rest := ih (index + 1)
    unfold littleEndian
    rw [Nat.mul_succ, Nat.pow_add, Nat.mul_comm (2 ^ (8 * bytes))]
    omega

namespace Buffer

/-- A read of `bytes` bytes, all of which must lie in the buffer. -/
def load (b : Buffer) (bytes : Nat) (index : Int) : Checked Nat :=
  if 0 ≤ index ∧ index + bytes ≤ b.size then .ok (littleEndian b.byte index.toNat bytes)
  else .error (.outside index)

/-- The address of a byte of the buffer. -/
def address (b : Buffer) (index : Nat) : Checked Int :=
  if index < b.size then .ok index else .error (.outside index)

/-- A field of an element of the array that begins at `start`. -/
def loadAt (b : Buffer) (start count stride : Nat) (index offset bytes : Nat) : Checked Nat :=
  if index < count then b.load bytes (start + stride * index + offset : Nat)
  else .error (.outside index)

variable {b : Buffer}

theorem load_ends {bytes : Nat} {index : Int} (above : 0 ≤ index)
    (below : index + bytes ≤ b.size) :
    Ends (b.load bytes index) fun value => value < 2 ^ (8 * bytes) := by
  unfold load
  rw [if_pos ⟨above, below⟩]
  exact Ends.ok (littleEndian_lt _ _ _)

/-- An element of an array that lies in the buffer. -/
theorem loadAt_ends {start count stride index offset bytes : Nat} (inside : index < count)
    (field : offset + bytes ≤ stride) (fits : start + stride * count ≤ b.size) :
    Ends (b.loadAt start count stride index offset bytes) fun value => value < 2 ^ (8 * bytes) := by
  have step : stride * (index + 1) ≤ stride * count := Nat.mul_le_mul_left _ inside
  rw [Nat.mul_succ] at step
  unfold loadAt
  rw [if_pos inside]
  apply load_ends
  · exact Int.natCast_nonneg _
  · omega

end Buffer

section Vector

variable {α : Type} {n : Nat}

def getAt (v : Vector α n) (index : Nat) : Checked α :=
  if inside : index < n then .ok v[index] else .error (.outside index)

def setAt (v : Vector α n) (index : Nat) (x : α) : Checked (Vector α n) :=
  if inside : index < n then .ok (v.set index x) else .error (.outside index)

theorem getAt_ends {v : Vector α n} {index : Nat} (inside : index < n) :
    Ends (getAt v index) fun _ => True := by
  unfold getAt
  rw [dif_pos inside]
  exact Ends.ok trivial

theorem setAt_ends {v : Vector α n} {index : Nat} {x : α} (inside : index < n) :
    Ends (setAt v index x) fun _ => True := by
  unfold setAt
  rw [dif_pos inside]
  exact Ends.ok trivial

end Vector

end Scudo.ErrorInfo
