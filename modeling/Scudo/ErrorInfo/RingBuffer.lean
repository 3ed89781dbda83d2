import Mathlib.Tactic.IntervalCases
import Scudo.ErrorInfo.Reports
import Scudo.ErrorInfo.Words
import Scudo.Lib.SlotRing

/-!
The ring buffer of allocations, which any thread writes without a lock while another process may read it
at any time: whatever entries are being written, those that are reported are entries that were stored.
-/

namespace Scudo.ErrorInfo
open Scudo.Lib Scudo.Chunk SlotRing
open Scudo.Lib.Checked

/-- `AllocationRingBuffer::Entry`. -/
structure Entry where
  ptr : BitVec 64
  allocationSize : BitVec 64
  allocationTrace : BitVec 32
  allocationTid : BitVec 32
  deallocationTrace : BitVec 32
  deallocationTid : BitVec 32

/-- Where the entry is in the buffer. -/
def getRingBufferEntry (n : Nat) : Nat := ringBufferBytes + ringEntryBytes * n

/-- `Pos` in the buffer. -/
def posOffset : Nat := 56

/-- The stores of `storeRingBufferEntry` to its entry, in their order. -/
def storeField (e : Entry) (k entry : Nat) (bytes : Nat → UInt8) : Nat → UInt8 :=
  match k with
  | 0 => store64 bytes entry 0
  | 1 => store32 bytes (entry + 16) e.allocationTrace
  | 2 => store32 bytes (entry + 20) e.allocationTid
  | 3 => store64 bytes (entry + 8) e.allocationSize
  | 4 => store32 bytes (entry + 24) e.deallocationTrace
  | 5 => store32 bytes (entry + 28) e.deallocationTid
  | _ => store64 bytes entry e.ptr

/-- The buffer, the calls of `storeRingBufferEntry` that are under way, each with its position and the
number of its stores, and all entries in the order of their positions. -/
structure RingState (τ : Type) where
  bytes : Nat → UInt8
  log : List Entry
  calls : τ → Option (Nat × Entry × Nat)

variable {τ : Type} [DecidableEq τ]

section Model

variable (ringBufferElements : Nat)

/-- The position does not wrap, and no call is so slow that another one gets its entry. -/
inductive RingStep : RingState τ → RingState τ → Prop
  | fetchAdd {s : RingState τ} (t : τ) (e : Entry) (idle : s.calls t = none)
      (room : s.log.length + 1 < 2 ^ 64)
      (free : ∀ u n e' k, s.calls u = some (n, e', k) →
        n % ringBufferElements ≠ s.log.length % ringBufferElements) :
      RingStep s ⟨store64 s.bytes posOffset (load64 s.bytes posOffset + 1), s.log ++ [e],
        Function.update s.calls t (some ((load64 s.bytes posOffset).toNat, e, 0))⟩
  | store {s : RingState τ} (t : τ) (pos : Nat) (e : Entry) (k : Nat) (get : s.calls t = some (pos, e, k))
      (more : k < 6) :
      RingStep s ⟨storeField e k (getRingBufferEntry (pos % ringBufferElements)) s.bytes, s.log,
        Function.update s.calls t (some (pos, e, k + 1))⟩
  | publish {s : RingState τ} (t : τ) (pos : Nat) (e : Entry) (get : s.calls t = some (pos, e, 6)) :
      RingStep s ⟨storeField e 6 (getRingBufferEntry (pos % ringBufferElements)) s.bytes, s.log,
        Function.update s.calls t none⟩

/-- The buffer is mapped, which makes it zero. -/
def ringSystem (τ : Type) [DecidableEq τ] : System (RingState τ) where
  init := fun s => (∀ a, s.bytes a = 0) ∧ s.log = [] ∧ ∀ t, s.calls t = none
  step := RingStep ringBufferElements

end Model

/-- The entry that the buffer has at a place. -/
def entryAt (bytes : Nat → UInt8) (n : Nat) : Entry where
  ptr := load64 bytes (getRingBufferEntry n)
  allocationSize := load64 bytes (getRingBufferEntry n + 8)
  allocationTrace := load32 bytes (getRingBufferEntry n + 16)
  allocationTid := load32 bytes (getRingBufferEntry n + 20)
  deallocationTrace := load32 bytes (getRingBufferEntry n + 24)
  deallocationTid := load32 bytes (getRingBufferEntry n + 28)

/-- The same stores on entries. An entry without a pointer is passed over. -/
def entryWriter : Writer Entry where
  steps := 7
  write e k old :=
    match k with
    | 0 => { old with ptr := 0 }
    | 1 => { old with allocationTrace := e.allocationTrace }
    | 2 => { old with allocationTid := e.allocationTid }
    | 3 => { old with allocationSize := e.allocationSize }
    | 4 => { old with deallocationTrace := e.deallocationTrace }
    | 5 => { old with deallocationTid := e.deallocationTid }
    | _ => { old with ptr := e.ptr }
  Blank e := e.ptr = 0

theorem entryWriter_lawful : entryWriter.Lawful where
  some_ := Nat.succ_pos _
  blank e old k started more := by
    change k < 7 at more
    interval_cases k <;> rfl
  all e old := rfl

section Stores

variable {bytes : Nat → UInt8} {n m k : Nat} {e : Entry}

theorem getRingBufferEntry_apart (other : m ≠ n) :
    getRingBufferEntry m + 32 ≤ getRingBufferEntry n ∨ getRingBufferEntry n + 32 ≤ getRingBufferEntry m := by
  unfold getRingBufferEntry ringEntryBytes
  omega

/-- A store stays in its entry. -/
theorem storeField_outside {a : Nat} (outside : a < getRingBufferEntry n ∨ getRingBufferEntry n + 32 ≤ a) :
    storeField e k (getRingBufferEntry n) bytes a = bytes a := by
  unfold storeField
  split <;> exact store_outside _ (by omega)

theorem entryAt_congr {bytes' : Nat → UInt8}
    (same : ∀ a, getRingBufferEntry n ≤ a → a < getRingBufferEntry n + 32 → bytes' a = bytes a) :
    entryAt bytes' n = entryAt bytes n := by
  unfold entryAt
  rw [load64_congr fun k lt => same _ (by omega) (by omega),
    load64_congr fun k lt => same _ (by omega) (by omega), load32_congr fun k lt => same _ (by omega) (by omega),
    load32_congr fun k lt => same _ (by omega) (by omega), load32_congr fun k lt => same _ (by omega) (by omega),
    load32_congr fun k lt => same _ (by omega) (by omega)]

theorem entryAt_storeField_self : entryAt (storeField e k (getRingBufferEntry n) bytes) n =
    entryWriter.write e k (entryAt bytes n) := by
  unfold entryAt storeField entryWriter
  dsimp only
  split
  case h_1 | h_4 | h_7 =>
    rw [load64_store64]
    unfold store64
    simp (disch := omega) only [load64_outside, load32_outside]
  all_goals
    rw [load32_store32]
    unfold store32
    simp (disch := omega) only [load64_outside, load32_outside]

theorem entryAt_storeField : entryAt (storeField e k (getRingBufferEntry n) bytes) =
    Function.update (entryAt bytes) n (entryWriter.write e k (entryAt bytes n)) := by
  funext m
  by_cases same : m = n
  · subst same
    rw [Function.update_self, entryAt_storeField_self]
  · rw [Function.update_of_ne same]
    have apart := getRingBufferEntry_apart same
    exact entryAt_congr fun a low high => storeField_outside (by omega)

/-- The position is in front of the entries. -/
theorem entryAt_pos (word : BitVec 64) : entryAt (store64 bytes posOffset word) = entryAt bytes := by
  funext n
  apply entryAt_congr
  intro a low high
  apply store_outside
  unfold getRingBufferEntry ringBufferBytes at low
  unfold posOffset
  omega

theorem storeField_pos :
    load64 (storeField e k (getRingBufferEntry n) bytes) posOffset = load64 bytes posOffset := by
  apply load64_congr
  intro i lt
  apply storeField_outside
  unfold getRingBufferEntry ringBufferBytes posOffset
  omega

theorem load64_zero (zero : ∀ a, bytes a = 0) (a : Nat) : load64 bytes a = 0 := by
  unfold load64 load32
  simp only [zero]
  rfl

end Stores

section Refinement

variable {size : Nat} {s s' : RingState τ}

/-- The ring of entries that the buffer stands for. -/
def RingState.ring (s : RingState τ) : State τ Entry := ⟨entryAt s.bytes, s.log, s.calls⟩

/-- The position counts the calls. -/
def RingState.Counted (s : RingState τ) : Prop :=
  (load64 s.bytes posOffset).toNat = s.log.length ∧ s.log.length < 2 ^ 64

theorem RingStep.counted (step : RingStep size s s') (counted : s.Counted) : s'.Counted := by
  obtain ⟨position, small⟩ := counted
  cases step with
  | fetchAdd t e idle room free =>
    refine ⟨?_, ?_⟩
    · change (load64 (store64 s.bytes posOffset _) posOffset).toNat = (s.log ++ [e]).length
      rw [load64_store64, BitVec.toNat_add, position, List.length_append]
      exact Nat.mod_eq_of_lt room
    · change (s.log ++ [e]).length < _
      rw [List.length_append]
      exact room
  | store t pos e k get more => exact ⟨(congrArg BitVec.toNat storeField_pos).trans position, small⟩
  | publish t pos e get => exact ⟨(congrArg BitVec.toNat storeField_pos).trans position, small⟩

/-- Every store is one of the ring of entries. -/
theorem RingStep.refines (step : RingStep size s s') (counted : s.Counted) :
    SlotRing.Step entryWriter size s.ring s'.ring := by
  cases step with
  | fetchAdd t e idle room free =>
    have claim : SlotRing.Step entryWriter size s.ring (s.ring.claim t e) := .claim t e idle free
    have same : s.ring.claim t e = (⟨store64 s.bytes posOffset (load64 s.bytes posOffset + 1), s.log ++ [e],
        Function.update s.calls t (some ((load64 s.bytes posOffset).toNat, e, 0))⟩ : RingState τ).ring := by
      unfold RingState.ring State.claim
      rw [entryAt_pos, counted.1]
    rw [← same]
    exact claim
  | store t pos e k get more =>
    have store : SlotRing.Step entryWriter size s.ring (s.ring.store entryWriter size t pos e k
        (some (pos, e, k + 1))) := .store t pos e k get (Nat.succ_lt_succ more)
    have same : s.ring.store entryWriter size t pos e k (some (pos, e, k + 1)) =
        (⟨storeField e k (getRingBufferEntry (pos % size)) s.bytes, s.log,
          Function.update s.calls t (some (pos, e, k + 1))⟩ : RingState τ).ring := by
      unfold RingState.ring State.store
      rw [entryAt_storeField]
    rw [← same]
    exact store
  | publish t pos e get =>
    have store : SlotRing.Step entryWriter size s.ring (s.ring.store entryWriter size t pos e 6 none) :=
      .finish t pos e 6 get rfl
    have same : s.ring.store entryWriter size t pos e 6 none =
        (⟨storeField e 6 (getRingBufferEntry (pos % size)) s.bytes, s.log,
          Function.update s.calls t none⟩ : RingState τ).ring := by
      unfold RingState.ring State.store
      rw [entryAt_storeField]
    rw [← same]
    exact store

theorem ring_reachable (reached : (ringSystem size τ).Reachable s) :
    (SlotRing.system τ entryWriter size).Reachable s.ring ∧ s.Counted := by
  induction reached with
  | init start =>
    obtain ⟨zero, empty, idle⟩ := start
    have word := load64_zero zero
    refine ⟨.init ⟨fun place => word _, empty, idle⟩, ?_, ?_⟩
    · rw [word, empty]
      rfl
    · rw [empty]
      exact Nat.two_pow_pos 64
  | step before move ih =>
    obtain ⟨ring, counted⟩ := ih
    exact ⟨ring.step (move.refines counted), move.counted counted⟩

end Refinement

end Scudo.ErrorInfo
