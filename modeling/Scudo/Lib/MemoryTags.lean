import Mathlib.Data.List.Basic
import Mathlib.Tactic.Common
import Mathlib.Tactic.Ring

/-!
The memory tagging instructions. Every sixteen bytes of memory have a tag of four bits, and a pointer
has one in the low half of its top byte.
-/

namespace Scudo.Lib.MemoryTags

@[ext] structure Memory where
  /-- By number of the granule. -/
  tags : Nat → Nat
  bytes : Nat → UInt8

/-- The top byte is ignored. -/
def address (ptr : Nat) : Nat := ptr % 2 ^ 56

def tagOf (ptr : Nat) : Nat := ptr / 2 ^ 56 % 16

def pointer (tag a : Nat) : Nat := a + tag * 2 ^ 56

/-- The pointer with another tag. -/
def retag (ptr tag : Nat) : Nat := ptr - tagOf ptr * 2 ^ 56 + tag * 2 ^ 56

/-- The first tag from `start` on, around the end, that the mask does not exclude; none but zero is left
when it excludes all of them. -/
def chooseTag (start excludeMask : Nat) : Nat :=
  (((List.range 16).map fun k => (start + k) % 16).find? fun tag => !excludeMask.testBit tag).getD 0

/-- `IRG`; where the search starts is random. -/
def irg (start ptr excludeMask : Nat) : Nat := retag ptr (chooseTag start excludeMask)

namespace Memory

variable (m : Memory)

def tagAt (a : Nat) : Nat := m.tags (a / 16)

/-- `LDG` -/
def ldg (ptr : Nat) : Nat := retag ptr (m.tagAt (address ptr))

/-- `STG` -/
def stg (ptr : Nat) : Memory :=
  { m with tags := fun g => if g = address ptr / 16 then tagOf ptr else m.tags g }

/-- `STZG` -/
def stzg (ptr : Nat) : Memory where
  tags := fun g => if g = address ptr / 16 then tagOf ptr else m.tags g
  bytes := fun a => if a / 16 = address ptr / 16 then 0 else m.bytes a

/-- `DC GZVA`, with the size of a line. -/
def gzva (lineSize ptr : Nat) : Memory where
  tags := fun g => if g * 16 / lineSize = address ptr / lineSize then tagOf ptr else m.tags g
  bytes := fun a => if a / lineSize = address ptr / lineSize then 0 else m.bytes a

/-- The granules from one address to another have this tag, and are zero. -/
def fill (tag a b : Nat) : Memory where
  tags := fun g => if a ≤ g * 16 ∧ g * 16 < b then tag else m.tags g
  bytes := fun x => if a ≤ x ∧ x < b then 0 else m.bytes x

end Memory

section Pointers

variable {tag tag' a : Nat}

theorem address_pointer (below : a < 2 ^ 56) : address (pointer tag a) = a := by
  unfold address pointer
  rw [Nat.add_mul_mod_self_right, Nat.mod_eq_of_lt below]

theorem tagOf_pointer (small : tag < 16) (below : a < 2 ^ 56) : tagOf (pointer tag a) = tag := by
  unfold tagOf pointer
  rw [Nat.add_mul_div_right _ _ (by decide), Nat.div_eq_of_lt below, Nat.zero_add, Nat.mod_eq_of_lt small]

theorem retag_pointer (small : tag < 16) (below : a < 2 ^ 56) :
    retag (pointer tag a) tag' = pointer tag' a := by
  unfold retag
  rw [tagOf_pointer small below]
  unfold pointer
  rw [Nat.add_sub_cancel]

theorem pointer_zero (a : Nat) : pointer 0 a = a := by
  unfold pointer
  rw [Nat.zero_mul, Nat.add_zero]

theorem pointer_add (tag a k : Nat) : pointer tag a + k = pointer tag (a + k) := by
  unfold pointer
  omega

theorem pointer_inj : pointer tag a = pointer tag' a ↔ tag = tag' := by
  unfold pointer
  omega

theorem pointer_le_iff {b : Nat} : pointer tag a ≤ pointer tag b ↔ a ≤ b := by
  unfold pointer
  omega

theorem pointer_lt_iff {b : Nat} : pointer tag a < pointer tag b ↔ a < b := by
  unfold pointer
  omega

theorem dvd_pointer {k : Nat} (power : k ∣ 2 ^ 56) : k ∣ pointer tag a ↔ k ∣ a := by
  unfold pointer
  exact (Nat.dvd_add_iff_left (Nat.dvd_mul_left_of_dvd power tag)).symm

end Pointers

section Choice

variable {start excludeMask : Nat}

theorem chooseTag_lt (start excludeMask : Nat) : chooseTag start excludeMask < 16 := by
  unfold chooseTag
  cases found : ((List.range 16).map fun k => (start + k) % 16).find?
      fun tag => !excludeMask.testBit tag with
  | none => decide
  | some tag =>
    obtain ⟨k, -, rfl⟩ := List.mem_map.mp (List.mem_of_find?_eq_some found)
    exact Nat.mod_lt _ (by decide)

/-- Whatever the random start, the tag is not an excluded one while there is another. -/
theorem chooseTag_allowed {tag : Nat} (small : tag < 16) (allowed : excludeMask.testBit tag = false) :
    excludeMask.testBit (chooseTag start excludeMask) = false := by
  unfold chooseTag
  cases found : ((List.range 16).map fun k => (start + k) % 16).find?
      fun tag => !excludeMask.testBit tag with
  | none =>
    have reached : tag ∈ (List.range 16).map fun k => (start + k) % 16 :=
      List.mem_map.mpr ⟨(tag + 15 * start) % 16, List.mem_range.mpr (Nat.mod_lt _ (by decide)), by omega⟩
    have excluded := List.find?_eq_none.mp found tag reached
    rw [allowed] at excluded
    exact absurd rfl excluded
  | some other =>
    have free := List.find?_some found
    rw [Bool.not_eq_true'] at free
    exact free

end Choice

namespace Memory

variable (m : Memory) {tag a b c : Nat}

theorem ldg_pointer (small : tag < 16) (below : a < 2 ^ 56) :
    m.ldg (pointer tag a) = pointer (m.tagAt a) a := by
  unfold ldg
  rw [address_pointer below, retag_pointer small below]

theorem fill_self (tag a : Nat) : m.fill tag a a = m := by
  unfold fill
  apply Memory.ext
  · funext g
    exact if_neg (by omega)
  · funext x
    exact if_neg (by omega)

/-- Two adjacent parts are one. -/
theorem fill_fill (tag : Nat) (first : a ≤ b) (second : b ≤ c) :
    (m.fill tag a b).fill tag b c = m.fill tag a c := by
  unfold fill
  apply Memory.ext
  · funext g
    show (if b ≤ g * 16 ∧ g * 16 < c then tag else if a ≤ g * 16 ∧ g * 16 < b then tag else m.tags g) =
      if a ≤ g * 16 ∧ g * 16 < c then tag else m.tags g
    split_ifs <;> first | rfl | omega
  · funext x
    show (if b ≤ x ∧ x < c then 0 else if a ≤ x ∧ x < b then 0 else m.bytes x) =
      if a ≤ x ∧ x < c then 0 else m.bytes x
    split_ifs <;> first | rfl | omega

/-- What one granule or one line is, as a part of memory. -/
theorem part_iff {size x : Nat} (positive : 0 < size) (aligned : size ∣ a) :
    x / size = a / size ↔ a ≤ x ∧ x < a + size := by
  obtain ⟨k, rfl⟩ := aligned
  rw [Nat.mul_div_cancel_left k positive, Nat.div_eq_iff positive, Nat.mul_comm size k]
  omega

theorem stzg_pointer (small : tag < 16) (below : a < 2 ^ 56) (aligned : 16 ∣ a) :
    m.stzg (pointer tag a) = m.fill tag a (a + 16) := by
  unfold stzg fill
  rw [address_pointer below, tagOf_pointer small below]
  apply Memory.ext
  · funext g
    have one : g = a / 16 ↔ a ≤ g * 16 ∧ g * 16 < a + 16 := by omega
    simp only [one]
  · funext x
    simp only [part_iff (by decide : 0 < 16) aligned]

theorem gzva_pointer {lineSize : Nat} (positive : 0 < lineSize) (small : tag < 16) (below : a < 2 ^ 56)
    (aligned : lineSize ∣ a) : m.gzva lineSize (pointer tag a) = m.fill tag a (a + lineSize) := by
  unfold gzva fill
  rw [address_pointer below, tagOf_pointer small below]
  apply Memory.ext
  · funext g
    simp only [part_iff positive aligned]
  · funext x
    simp only [part_iff positive aligned]

end Memory

section Reads

variable {m : Memory} {tag a b x : Nat}

theorem tagAt_fill_inside (aligned : 16 ∣ a) (whole : 16 ∣ b) (above : a ≤ x) (below : x < b) :
    (m.fill tag a b).tagAt x = tag := if_pos (by omega)

theorem tagAt_fill_outside (aligned : 16 ∣ a) (whole : 16 ∣ b) (outside : x < a ∨ b ≤ x) :
    (m.fill tag a b).tagAt x = m.tagAt x := if_neg (by omega)

theorem bytes_fill_inside (above : a ≤ x) (below : x < b) : (m.fill tag a b).bytes x = 0 :=
  if_pos ⟨above, below⟩

theorem bytes_fill_outside (outside : x < a ∨ b ≤ x) : (m.fill tag a b).bytes x = m.bytes x :=
  if_neg (by omega)

theorem tagAt_stg (small : tag < 16) (below : a < 2 ^ 56) :
    (m.stg (pointer tag a)).tagAt x = if x / 16 = a / 16 then tag else m.tagAt x := by
  unfold Memory.stg Memory.tagAt
  rw [address_pointer below, tagOf_pointer small below]

end Reads

/-- Only between two addresses is anything different. -/
structure Memory.Confined (m m' : Memory) (a b : Nat) : Prop where
  tags : ∀ x, x < a ∨ b ≤ x → m'.tagAt x = m.tagAt x
  bytes : ∀ x, x < a ∨ b ≤ x → m'.bytes x = m.bytes x

theorem Memory.Confined.trans {m m' m'' : Memory} {a b : Nat} (first : Confined m m' a b)
    (second : Confined m' m'' a b) : Confined m m'' a b where
  tags x outside := (second.tags x outside).trans (first.tags x outside)
  bytes x outside := (second.bytes x outside).trans (first.bytes x outside)

/-- Between two addresses nothing is different. -/
structure Memory.Same (m m' : Memory) (a b : Nat) : Prop where
  tags : ∀ x, a ≤ x → x < b → m'.tagAt x = m.tagAt x
  bytes : ∀ x, a ≤ x → x < b → m'.bytes x = m.bytes x

/-- What is confined to one range leaves the others. -/
theorem Memory.Confined.same {m m' : Memory} {a b a' b' : Nat} (confined : Confined m m' a b)
    (apart : b' ≤ a ∨ b ≤ a') : Same m m' a' b' where
  tags x above below := confined.tags x (by omega)
  bytes x above below := confined.bytes x (by omega)

end Scudo.Lib.MemoryTags
