import Scudo.Common
import Scudo.Lib.MemoryTags

/-!
`memtag.h`, with the assembly of `storeTags`: whole lines of the data cache are tagged and cleared at
once, and this has the effect of the loop over the granules.
-/

namespace Scudo.Tagging
open Scudo.Lib MemoryTags

def archMemoryTagGranuleSize : Nat := 16

def untagPointer (ptr : Nat) : Nat := ptr &&& (2 ^ 56 - 1)

def extractTag (ptr : Nat) : Nat := ptr >>> 56 &&& 0xf

def addFixedTag (ptr tag : Nat) : Nat := ptr ||| tag <<< 56

/-- Tag 0 is always excluded. -/
def selectRandomTag (start ptr excludeMask : Nat) : Nat := irg start ptr (excludeMask ||| 1)

/-- `1:` STZG until the start of the next cache line. -/
def stzgUntil (next : Nat) (m : Memory) (cur : Nat) : Memory × Nat :=
  if cur + 16 < next then stzgUntil next (m.stzg cur) (cur + 16) else (m.stzg cur, cur + 16)
termination_by next - cur

/-- `2:` DC GZVA cache lines until there are no more full ones. The size of a line is `4 << log`. -/
def gzvaUntil (log next : Nat) (m : Memory) (cur : Nat) : Memory × Nat :=
  if cur + 4 <<< log < next then gzvaUntil log next (m.gzva (4 <<< log) cur) (cur + 4 <<< log)
  else (m.gzva (4 <<< log) cur, cur + 4 <<< log)
termination_by next - cur
decreasing_by
  have positive := Nat.two_pow_pos log
  rw [Nat.shiftLeft_eq] at *
  omega

/-- `3:` STZG until the end of the tagged region. -/
def stzgWhile (stop : Nat) (m : Memory) (cur : Nat) : Memory × Nat :=
  if stop ≤ cur then (m, cur) else stzgWhile stop (m.stzg cur) (cur + 16)
termination_by stop - cur

/-- The memory and the end of what was tagged. `dczid` is what the register of that name says: whether
the DC instructions are unavailable, and the size of a line. -/
def storeTags (dczid : Nat) (m : Memory) (begin_ stop : Nat) : Memory × Nat :=
  let log := dczid &&& 15
  let lineSize := 4 <<< log
  -- too small for a whole line, wherever that starts
  if dczid.testBit 4 = true ∨ stop - begin_ < lineSize <<< 1 then stzgWhile stop m begin_
  else
    let lineMask := lineSize - 1
    let first := stzgUntil (begin_ ||| lineMask) m begin_
    let lines := gzvaUntil log (stop &&& wnot 64 lineMask) first.1 first.2
    stzgWhile stop lines.1 lines.2

def storeTag (m : Memory) (ptr : Nat) : Memory := m.stg ptr

def loadTag (m : Memory) (ptr : Nat) : Nat := m.ldg ptr

/-- The memory and the tagged pointers to the begin and the end. -/
def setRandomTag (dczid start : Nat) (m : Memory) (ptr size excludeMask : Nat) :
    Memory × Nat × Nat :=
  let taggedBegin := selectRandomTag start ptr excludeMask
  let tagged := storeTags dczid m taggedBegin (taggedBegin + size)
  (tagged.1, taggedBegin, tagged.2)

section Pointers

variable {tag a : Nat}

theorem untagPointer_eq (ptr : Nat) : untagPointer ptr = address ptr := Nat.and_two_pow_sub_one_eq_mod _ _

theorem extractTag_eq (ptr : Nat) : extractTag ptr = tagOf ptr := by
  unfold extractTag tagOf
  rw [Nat.shiftRight_eq_div_pow]
  exact Nat.and_two_pow_sub_one_eq_mod _ 4

theorem untagPointer_pointer (below : a < 2 ^ 56) : untagPointer (pointer tag a) = a := by
  rw [untagPointer_eq, address_pointer below]

theorem extractTag_pointer (small : tag < 16) (below : a < 2 ^ 56) :
    extractTag (pointer tag a) = tag := by
  rw [extractTag_eq, tagOf_pointer small below]

theorem addFixedTag_eq (below : a < 2 ^ 56) : addFixedTag a tag = pointer tag a := by
  unfold addFixedTag pointer
  rw [Nat.or_comm, ← Nat.shiftLeft_add_eq_or_of_lt below, Nat.shiftLeft_eq, Nat.add_comm]

theorem loadTag_pointer {m : Memory} (small : tag < 16) (below : a < 2 ^ 56) :
    loadTag m (pointer tag a) = pointer (m.tagAt a) a := m.ldg_pointer small below

theorem loadTag_address {m : Memory} (below : a < 2 ^ 56) : loadTag m a = pointer (m.tagAt a) a := by
  have whole := loadTag_pointer (m := m) (by decide : 0 < 16) below
  rwa [pointer_zero] at whole

/-- The tag is none of the excluded ones, and not zero. -/
theorem selectRandomTag_spec {start excludeMask : Nat} (below : a < 2 ^ 56)
    (some_ : ∃ tag < 16, tag ≠ 0 ∧ excludeMask.testBit tag = false) :
    ∃ tag < 16, tag ≠ 0 ∧ excludeMask.testBit tag = false ∧
      selectRandomTag start a excludeMask = pointer tag a := by
  obtain ⟨other, otherSmall, otherNonzero, free⟩ := some_
  have one : ∀ t, (1 : Nat).testBit t = decide (t = 0) := by
    intro t
    rw [Bool.eq_iff_iff, Nat.testBit_one_eq_true_iff_self_eq_zero, decide_eq_true_iff]
  have left : (excludeMask ||| 1).testBit other = false := by
    rw [Nat.testBit_or, free, one, decide_eq_false otherNonzero]
    rfl
  have chosen := @chooseTag_allowed start _ _ otherSmall left
  rw [Nat.testBit_or, Bool.or_eq_false_iff, one, decide_eq_false_iff_not] at chosen
  refine ⟨_, chooseTag_lt start (excludeMask ||| 1), chosen.2, chosen.1, ?_⟩
  have retagged := @retag_pointer 0 (chooseTag start (excludeMask ||| 1)) a (by decide) below
  rwa [pointer_zero] at retagged

end Pointers

section Loops

variable {tag a b : Nat}

/-- The loop over the granules. -/
theorem stzgWhile_eq (m : Memory) (small : tag < 16) (aligned : 16 ∣ a) (below : b ≤ 2 ^ 56) :
    stzgWhile (pointer tag b) m (pointer tag a) =
      (m.fill tag a (max a (roundUpSlow b 16)), pointer tag (max a (roundUpSlow b 16))) := by
  have whole := dvd_roundUpSlow b 16
  have above := le_roundUpSlow b (by decide : 0 < 16)
  have close := roundUpSlow_lt b (by decide : 0 < 16)
  generalize roundUpSlow b 16 = stop at *
  -- on how far it is to the end
  induction far : stop - a using Nat.strong_induction_on generalizing a m with
  | _ far ih =>
    rw [stzgWhile]
    by_cases done : b ≤ a
    · have last : max a stop = a := by omega
      rw [if_pos (pointer_le_iff.mpr done), last, Memory.fill_self]
    · rw [if_neg (mt pointer_le_iff.mp done), Memory.stzg_pointer _ small (by omega) aligned, pointer_add,
        ih (stop - (a + 16)) (by omega) _ (by omega) rfl, Memory.fill_fill _ _ (by omega) (by omega)]
      have last : max (a + 16) stop = max a stop := by omega
      rw [last]

/-- Until the line ends at `b`. -/
theorem stzgUntil_eq (m : Memory) (small : tag < 16) (aligned : 16 ∣ a) (whole : 16 ∣ b) (less : a < b)
    (below : b ≤ 2 ^ 56) :
    stzgUntil (pointer tag (b - 1)) m (pointer tag a) = (m.fill tag a b, pointer tag b) := by
  induction far : b - a using Nat.strong_induction_on generalizing a m with
  | _ far ih =>
    rw [stzgUntil, Memory.stzg_pointer _ small (by omega) aligned, pointer_add]
    by_cases more : a + 16 < b - 1
    · rw [if_pos (pointer_lt_iff.mpr more), ih (b - (a + 16)) (by omega) _ (by omega) (by omega) rfl,
        Memory.fill_fill _ _ (by omega) (by omega)]
    · have last : a + 16 = b := by omega
      rw [if_neg (mt pointer_lt_iff.mp more), last]

/-- Multiples that differ are a line apart. -/
theorem line_le {lineSize x y : Nat} (first : lineSize ∣ x) (second : lineSize ∣ y) (less : x < y) :
    x + lineSize ≤ y := by
  obtain ⟨j, rfl⟩ := first
  obtain ⟨k, rfl⟩ := second
  have next : j + 1 ≤ k := Nat.lt_of_mul_lt_mul_left less
  calc lineSize * j + lineSize = lineSize * (j + 1) := (Nat.mul_succ _ _).symm
    _ ≤ lineSize * k := Nat.mul_le_mul_left _ next

/-- Line after line. -/
theorem gzvaUntil_eq {log : Nat} (m : Memory) (small : tag < 16) (aligned : 4 <<< log ∣ a)
    (whole : 4 <<< log ∣ b) (less : a < b) (below : b ≤ 2 ^ 56) :
    gzvaUntil log (pointer tag b) m (pointer tag a) = (m.fill tag a b, pointer tag b) := by
  have positive : 0 < 4 <<< log := by
    rw [Nat.shiftLeft_eq]
    exact Nat.mul_pos (by decide) (Nat.two_pow_pos log)
  induction far : b - a using Nat.strong_induction_on generalizing a m with
  | _ far ih =>
    have reach := line_le aligned whole less
    rw [gzvaUntil, Memory.gzva_pointer _ positive small (by omega) aligned, pointer_add]
    by_cases more : a + 4 <<< log < b
    · rw [if_pos (pointer_lt_iff.mpr more), ih (b - (a + 4 <<< log)) (by omega) _ (Nat.dvd_add aligned (dvd_refl _)) more rfl,
        Memory.fill_fill _ _ (by omega) (by omega)]
    · have last : a + 4 <<< log = b := by omega
      rw [if_neg (mt pointer_lt_iff.mp more), last]

end Loops

/-- All low bits set. -/
theorem or_mask (x k : Nat) : x ||| (2 ^ k - 1) = x / 2 ^ k * 2 ^ k + 2 ^ k - 1 := by
  have positive := Nat.two_pow_pos k
  have parts : x / 2 ^ k * 2 ^ k + 2 ^ k - 1 = (x / 2 ^ k) <<< k ||| (2 ^ k - 1) := by
    rw [← Nat.shiftLeft_add_eq_or_of_lt (by omega), Nat.shiftLeft_eq]
    omega
  rw [parts]
  apply Nat.eq_of_testBit_eq
  intro i
  rw [Nat.testBit_or, Nat.testBit_or, Nat.testBit_two_pow_sub_one, Nat.testBit_shiftLeft,
    Nat.testBit_div_two_pow]
  by_cases low : i < k
  · simp [low]
  · simp [low, Nat.not_lt.mp low]

/-- `storeTags` does what the loop over the granules does: the granules with an address from `a` to `b`
get the tag and are zero, and nothing else changes. A line that DC GZVA clears has at least the 16 bytes
of a granule, which is the least that the architecture allows with MTE. -/
theorem storeTags_eq {dczid tag a b : Nat} (m : Memory)
    (lines : dczid.testBit 4 = false → 2 ≤ dczid &&& 15) (small : tag < 16) (aligned : 16 ∣ a)
    (below : b ≤ 2 ^ 56) :
    storeTags dczid m (pointer tag a) (pointer tag b) =
      (m.fill tag a (max a (roundUpSlow b 16)), pointer tag (max a (roundUpSlow b 16))) := by
  unfold storeTags
  dsimp only
  split_ifs with slow
  · exact stzgWhile_eq m small aligned below
  · rw [not_or, Bool.not_eq_true, Nat.not_lt] at slow
    obtain ⟨available, long⟩ := slow
    have wide := lines available
    have narrow : dczid &&& 15 ≤ 15 := Nat.and_le_right
    generalize dczid &&& 15 = log at *
    have line : 4 <<< log = 2 ^ (log + 2) := by
      rw [Nat.shiftLeft_eq, Nat.pow_add, Nat.mul_comm]
    have granules : 16 ∣ 2 ^ (log + 2) := Nat.pow_dvd_pow 2 (by omega : 4 ≤ log + 2)
    have tagBits : 2 ^ (log + 2) ∣ 2 ^ 56 := Nat.pow_dvd_pow 2 (by omega)
    have positive := Nat.two_pow_pos (log + 2)
    have gap : pointer tag b - pointer tag a = b - a := by
      unfold pointer
      omega
    rw [gap, Nat.shiftLeft_eq, line] at long
    -- where the next line starts, and the last one that is whole ends
    have start : pointer tag a ||| (2 ^ (log + 2) - 1) =
        pointer tag (a / 2 ^ (log + 2) * 2 ^ (log + 2) + 2 ^ (log + 2) - 1) := by
      obtain ⟨upper, split⟩ := Nat.dvd_mul_left_of_dvd tagBits tag
      unfold pointer
      rw [or_mask, split, Nat.add_mul_div_left _ _ positive, Nat.add_mul, Nat.mul_comm upper]
      omega
    have end_ : pointer tag b &&& wnot 64 (2 ^ (log + 2) - 1) =
        pointer tag (b / 2 ^ (log + 2) * 2 ^ (log + 2)) := by
      have fits : pointer tag b < 2 ^ 64 := by
        unfold pointer
        omega
      obtain ⟨upper, split⟩ := Nat.dvd_mul_left_of_dvd tagBits tag
      rw [and_wnot (by omega) fits]
      unfold pointer
      rw [split, Nat.add_mul_div_left _ _ positive, Nat.add_mul, Nat.mul_comm upper]
    have next := Nat.lt_div_mul_add (a := a) positive
    have last := Nat.lt_div_mul_add (a := b) positive
    have least := Nat.div_mul_le_self a (2 ^ (log + 2))
    have most := Nat.div_mul_le_self b (2 ^ (log + 2))
    have lower := Nat.dvd_mul_left (2 ^ (log + 2)) (a / 2 ^ (log + 2))
    have upper := Nat.dvd_mul_left (2 ^ (log + 2)) (b / 2 ^ (log + 2))
    have above := le_roundUpSlow b (by decide : 0 < 16)
    rw [line, start, end_, stzgUntil_eq m small aligned
      (Nat.dvd_add (granules.trans lower) granules) next (by omega)]
    dsimp only
    rw [gzvaUntil_eq _ small (by rw [line]; exact Nat.dvd_add lower (dvd_refl _))
      (by rw [line]; exact upper) (by omega) (by omega)]
    dsimp only
    rw [stzgWhile_eq _ small (granules.trans upper) below, Memory.fill_fill _ _ (by omega) (by omega),
      Memory.fill_fill _ _ (by omega) (by omega)]
    have stop : max (b / 2 ^ (log + 2) * 2 ^ (log + 2)) (roundUpSlow b 16) = max a (roundUpSlow b 16) := by
      omega
    rw [stop]

/-- `storeTags` is the loop over the granules: with whole lines, and with none, it tags and clears what
lies from `a` up to the end of the last granule before `b`. `lines` is the architecture's minimum for the
lines of DC GZVA with MTE, 16 bytes. -/
theorem storeTags_granules {dczid tag a b : Nat} (m : Memory)
    (lines : dczid.testBit 4 = false → 2 ≤ dczid &&& 15) (small : tag < 16) (aligned : 16 ∣ a)
    (below : b ≤ 2 ^ 56) :
    storeTags dczid m (pointer tag a) (pointer tag b) =
        stzgWhile (pointer tag b) m (pointer tag a) ∧
      (storeTags dczid m (pointer tag a) (pointer tag b)).2 =
        pointer tag (max a (roundUpSlow b 16)) ∧
      ∀ x, (storeTags dczid m (pointer tag a) (pointer tag b)).1.tagAt x =
          (if a ≤ x ∧ x < roundUpSlow b 16 then tag else m.tagAt x) ∧
        (storeTags dczid m (pointer tag a) (pointer tag b)).1.bytes x =
          if a ≤ x ∧ x < roundUpSlow b 16 then 0 else m.bytes x := by
  have whole := dvd_roundUpSlow b 16
  rw [storeTags_eq m lines small aligned below, stzgWhile_eq m small aligned below]
  refine ⟨rfl, rfl, fun x => ?_⟩
  dsimp only
  split_ifs with inside
  · exact ⟨tagAt_fill_inside aligned (by omega) inside.1 (by omega),
      bytes_fill_inside inside.1 (by omega)⟩
  · exact ⟨tagAt_fill_outside aligned (by omega) (by omega), bytes_fill_outside (by omega)⟩

/-- Lines of 64 bytes: the second and the third are whole, between two granules and one that is not
filled. -/
theorem storeTags_granules_lines :
    (storeTags 4 ⟨fun _ => 9, fun _ => 7⟩ (pointer 5 32) (pointer 5 200)).2 = pointer 5 208 ∧
      (storeTags 4 ⟨fun _ => 9, fun _ => 7⟩ (pointer 5 32) (pointer 5 200)).1.tagAt 207 = 5 ∧
      (storeTags 4 ⟨fun _ => 9, fun _ => 7⟩ (pointer 5 32) (pointer 5 200)).1.bytes 208 = 7 := by
  obtain ⟨-, stop, reads⟩ := @storeTags_granules 4 5 32 200 ⟨fun _ => 9, fun _ => 7⟩
    (fun _ => by decide) (by decide) (by decide) (by decide)
  exact ⟨stop, (reads 207).1, (reads 208).2⟩

end Scudo.Tagging
