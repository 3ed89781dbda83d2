import Scudo.ErrorInfo.Buffers

/-!
`StackDepot` in a buffer of another process: `isValid` establishes that the ring and the table fill
the rest of the buffer, which is what `find` and `at` rely on.
-/

namespace Scudo.ErrorInfo
open Scudo.Lib.Checked

namespace MurMur2HashBuilder

def m : Nat := 0x5bd1e995
def seed : Nat := 0x9747b28c
def r : Nat := 24

/-- The builder with `Init` 0. -/
def init : Nat := seed

def add (h k : Nat) : Nat :=
  let k := wrap 32 (k * m)
  let k := k ^^^ (k >>> r)
  let k := wrap 32 (k * m)
  wrap 32 (h * m) ^^^ k

def get (h : Nat) : Nat :=
  let x := h ^^^ (h >>> 13)
  let x := wrap 32 (x * m)
  x ^^^ (x >>> 15)

end MurMur2HashBuilder

/-- A `StackDepot` at the beginning of a buffer: the mutex, `RingEnd`, the sizes, then the ring of
`RingSize` 64-bit words and the table of `TabMask + 1` 32-bit words. -/
structure StackDepot where
  buffer : Buffer

namespace StackDepot

def headerBytes : Nat := 24

variable (depot : StackDepot)

def ringSize : Checked Nat := depot.buffer.load 4 8
def ringMask : Checked Nat := depot.buffer.load 4 12
def tabMask : Checked Nat := depot.buffer.load 4 16

/-- `getRing()[Index]`. -/
def ring (index : Nat) : Checked Nat := do
  let size ← depot.ringSize
  depot.buffer.loadAt headerBytes size 8 index 0 8

/-- `getTab()[Index]`. -/
def tab (index : Nat) : Checked Nat := do
  let size ← depot.ringSize
  let mask ← depot.tabMask
  depot.buffer.loadAt (headerBytes + 8 * size) (mask + 1) 4 index 0 4

def isValid (bufSize : Nat) : Checked Bool := do
  let ringSize ← depot.ringSize
  if isPowerOfTwo ringSize = false then return false
  else
    let ringBytes := wrap 64 (8 * ringSize)
    let ringMask ← depot.ringMask
    if wadd 32 ringMask 1 ≠ ringSize then return false
    else
      let tabMask ← depot.tabMask
      if tabMask = 0 then return false
      else
        let tabSize := wadd 32 tabMask 1
        if isPowerOfTwo tabSize = false then return false
        else
          let tabBytes := wrap 64 (4 * tabSize)
          if bufSize < headerBytes then return false
          else if bufSize - headerBytes < tabBytes then return false
          else if bufSize - headerBytes - tabBytes < ringBytes then return false
          else return bufSize - headerBytes - tabBytes == ringBytes

/-- The hash of the stack frames after a marker, and the place of the last one. -/
def hashFrames (size ringMask : Nat) (start : Nat × Nat) : Checked (Nat × Nat) :=
  (List.range size).foldlM (fun state _ => do
    let ringPos := wadd 32 state.1 1 &&& ringMask
    let frame ← depot.ring ringPos
    return (ringPos, MurMur2HashBuilder.add state.2 (wrap 32 frame >>> 2))) start

/-- The place and the size of the trace with this hash. -/
def find (hash : Nat) : Checked (Option (Nat × Nat)) := do
  let tabMask ← depot.tabMask
  let ringPos ← depot.tab (hash &&& tabMask)
  let ringSize ← depot.ringSize
  if ringSize ≤ ringPos then return none
  else
    let entry ← depot.ring ringPos
    let hashWithTagBit := wrap 64 (hash <<< 1) ||| 1
    if entry &&& 0x1ffffffff ≠ hashWithTagBit then return none
    else
      let size := wrap 32 (entry >>> 33)
      if ringSize ≤ size then return none
      else
        let ringMask ← depot.ringMask
        let hashed ← depot.hashFrames size ringMask (ringPos, MurMur2HashBuilder.init)
        if MurMur2HashBuilder.get hashed.2 = hash then
          return some (wadd 32 ringPos 1 &&& ringMask, size)
        else return none

/-- `at` -/
def frameAt (ringPos : Nat) : Checked Nat := do
  let ringMask ← depot.ringMask
  depot.ring (ringPos &&& ringMask)

end StackDepot

def maxTraceSize : Nat := 64

/-- The trace is left alone where there is none for the hash. -/
def collectTraceMaybe (depot : StackDepot) (trace : Vector Nat maxTraceSize) (hash : Nat) :
    Checked (Vector Nat maxTraceSize) := do
  let found ← depot.find hash
  match found with
  | none => return trace
  | some (ringPos, size) =>
    (List.range (min size maxTraceSize)).foldlM (fun trace i => do
      let frame ← depot.frameAt (wadd 64 ringPos i)
      setAt trace i frame) trace

namespace StackDepot

/-- What `isValid` establishes. -/
structure Fits (depot : StackDepot) (size mask : Nat) : Prop where
  ringSize : depot.ringSize = .ok size
  ringMask : depot.ringMask = .ok (size - 1)
  tabMask : depot.tabMask = .ok mask
  positive : 0 < size
  room : headerBytes + 8 * size + 4 * (mask + 1) ≤ depot.buffer.size

variable {depot : StackDepot} {size mask : Nat}

/-- The sizes can be read from a buffer that holds a header. -/
theorem isValid_ends (header : headerBytes ≤ depot.buffer.size) :
    Ends (depot.isValid depot.buffer.size) fun valid =>
      valid = true → ∃ size mask, depot.Fits size mask := by
  unfold headerBytes at header
  obtain ⟨size, size_eq, size_lt⟩ : Ends depot.ringSize fun value => value < 2 ^ (8 * 4) :=
    Buffer.load_ends (by decide) (by omega)
  obtain ⟨ringMask, ring_eq, ring_lt⟩ : Ends depot.ringMask fun value => value < 2 ^ (8 * 4) :=
    Buffer.load_ends (by decide) (by omega)
  obtain ⟨mask, tab_eq, tab_lt⟩ : Ends depot.tabMask fun value => value < 2 ^ (8 * 4) :=
    Buffer.load_ends (by decide) (by omega)
  have never : (false = true → ∃ size mask, depot.Fits size mask) := fun impossible => by
    cases impossible
  unfold isValid
  apply (Ends.of_eq size_eq rfl).bind
  rintro _ rfl
  apply Ends.ite (fun _ => Ends.pure never)
  intro ringPower
  rw [Bool.not_eq_false] at ringPower
  apply (Ends.of_eq ring_eq rfl).bind
  rintro _ rfl
  apply Ends.ite (fun _ => Ends.pure never)
  intro ringFits
  rw [not_not] at ringFits
  apply (Ends.of_eq tab_eq rfl).bind
  rintro _ rfl
  apply Ends.ite (fun _ => Ends.pure never)
  intro _
  apply Ends.ite (fun _ => Ends.pure never)
  intro tabPower
  rw [Bool.not_eq_false] at tabPower
  apply Ends.ite (fun _ => Ends.pure never)
  intro bytes
  apply Ends.ite (fun _ => Ends.pure never)
  intro table
  apply Ends.ite (fun _ => Ends.pure never)
  intro _
  apply Ends.pure
  intro exactly
  have ringPositive := isPowerOfTwo_pos ringPower
  have tabPositive := isPowerOfTwo_pos tabPower
  -- a mask of all bits would make the size 0, which is no power of two
  have tabWhole : wadd 32 mask 1 = mask + 1 := by
    apply wadd_eq
    by_contra wraps
    have all : mask + 1 = 2 ^ 32 := by omega
    unfold wadd at tabPositive
    rw [all] at tabPositive
    exact absurd tabPositive (by decide)
  have ringWhole : ringMask + 1 = size := by
    by_cases wraps : ringMask + 1 < 2 ^ 32
    · rw [← ringFits, wadd_eq wraps]
    · have all : ringMask + 1 = 2 ^ 32 := by omega
      unfold wadd at ringFits
      rw [all] at ringFits
      rw [← ringFits] at ringPositive
      exact absurd ringPositive (by decide)
  rw [beq_iff_eq, tabWhole, wrap_eq (by omega), wrap_eq (by omega)] at exactly
  rw [tabWhole, wrap_eq (by omega)] at table
  refine ⟨size, mask, size_eq, ?_, tab_eq, ringPositive, ?_⟩
  · rw [ring_eq, ← ringWhole, Nat.add_sub_cancel]
  · omega

namespace Fits

theorem ring_ends (fits : depot.Fits size mask) {index : Nat} (inside : index < size) :
    Ends (depot.ring index) fun _ => True := by
  have room := fits.room
  unfold ring
  apply (Ends.of_eq fits.ringSize rfl).bind
  rintro _ rfl
  exact (Buffer.loadAt_ends inside (by decide) (by omega)).mono fun _ _ => trivial

theorem tab_ends (fits : depot.Fits size mask) {index : Nat} (inside : index ≤ mask) :
    Ends (depot.tab index) fun _ => True := by
  have room := fits.room
  unfold tab
  apply (Ends.of_eq fits.ringSize rfl).bind
  rintro _ rfl
  apply (Ends.of_eq fits.tabMask rfl).bind
  rintro _ rfl
  exact (Buffer.loadAt_ends (by omega) (by decide) room).mono fun _ _ => trivial

/-- A masked place is in the ring. -/
theorem masked_lt (fits : depot.Fits size mask) (place : Nat) : place &&& (size - 1) < size := by
  have positive := fits.positive
  have le := Nat.and_le_right (n := place) (m := size - 1)
  omega

theorem frameAt_ends (fits : depot.Fits size mask) (ringPos : Nat) :
    Ends (depot.frameAt ringPos) fun _ => True := by
  unfold frameAt
  apply (Ends.of_eq fits.ringMask rfl).bind
  rintro _ rfl
  exact fits.ring_ends (fits.masked_lt ringPos)

theorem hashFrames_ends (fits : depot.Fits size mask) (frames : Nat) (start : Nat × Nat) :
    Ends (depot.hashFrames frames (size - 1) start) fun _ => True := by
  unfold hashFrames
  apply Ends.foldlM trivial
  intro state _ _ _
  apply (fits.ring_ends (fits.masked_lt _)).bind
  intro frame _
  exact Ends.pure trivial

theorem find_ends (fits : depot.Fits size mask) (hash : Nat) :
    Ends (depot.find hash) fun _ => True := by
  unfold find
  apply (Ends.of_eq fits.tabMask rfl).bind
  rintro _ rfl
  apply (fits.tab_ends Nat.and_le_right).bind
  intro ringPos _
  apply (Ends.of_eq fits.ringSize rfl).bind
  rintro _ rfl
  apply Ends.ite (fun _ => Ends.pure trivial)
  intro inside
  apply (fits.ring_ends (Nat.lt_of_not_le inside)).bind
  intro entry _
  apply Ends.ite (fun _ => Ends.pure trivial)
  intro _
  apply Ends.ite (fun _ => Ends.pure trivial)
  intro _
  apply (Ends.of_eq fits.ringMask rfl).bind
  rintro _ rfl
  apply (fits.hashFrames_ends _ _).bind
  intro hashed _
  exact Ends.ite (fun _ => Ends.pure trivial) fun _ => Ends.pure trivial

theorem collectTraceMaybe_ends (fits : depot.Fits size mask) (trace : Vector Nat maxTraceSize)
    (hash : Nat) : Ends (collectTraceMaybe depot trace hash) fun _ => True := by
  unfold collectTraceMaybe
  apply (fits.find_ends hash).bind
  intro found _
  cases found with
  | none => exact Ends.pure trivial
  | some place =>
    apply Ends.foldlM trivial
    intro trace _ i member
    apply (fits.frameAt_ends _).bind
    intro frame _
    exact setAt_ends ((List.mem_range.mp member).trans_le (Nat.min_le_right _ _))

end Fits

end StackDepot

end Scudo.ErrorInfo
