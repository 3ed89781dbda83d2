import Scudo.Lib.Tiling
import Scudo.Primary.PageRelease

/-!
What the counters of the page map say: the counter of a page is the number of blocks with bytes in
the page that have been counted, or the mask where all of them have been.
-/

namespace Scudo.Primary
open Scudo.Lib
open Scudo.Lib.Tiling

theorem two_pow_pageSizeLog (page : PageSize) : 2 ^ pageSizeLog page = page.bytes := by
  obtain ⟨k, power⟩ := isPowerOfTwo_iff.mp page.power
  unfold pageSizeLog
  rw [power, Nat.log2_two_pow]

theorem shiftRight_pageSizeLog (page : PageSize) (x : Nat) :
    x >>> pageSizeLog page = x / page.bytes := by
  rw [Nat.shiftRight_eq_div_pow, two_pow_pageSizeLog]

theorem shiftLeft_pageSizeLog (page : PageSize) (x : Nat) :
    x <<< pageSizeLog page = x * page.bytes := by
  rw [Nat.shiftLeft_eq, two_pow_pageSizeLog]

/-- `roundUpSlow` as a multiple of the rounded quotient. -/
theorem roundUpSlow_eq (x boundary : Nat) : roundUpSlow x boundary = x ⌈/⌉ boundary * boundary := rfl

namespace PageReleaseContext

variable {page : PageSize} {blockSize : Nat}

/-- Where all pages have bytes of the same number of blocks, it is the maximum. -/
theorem blockCount_same (positive : 0 < blockSize) (same : (blockCount page blockSize).2 = true)
    (j : Nat) : (touching blockSize page.bytes j).card = (blockCount page blockSize).1 := by
  unfold blockCount at same ⊢
  split_ifs at same ⊢ with fits whole rest pages
  · exact card_touching_of_dvd positive (Nat.dvd_of_mod_eq_zero whole)
  · exact card_touching_of_rest positive whole (Nat.dvd_of_mod_eq_zero rest)
  · have power := page.power
    obtain ⟨k, shape⟩ := isPowerOfTwo_iff.mp power
    rw [shape, Nat.and_two_pow_sub_one_eq_mod, ← shape] at pages
    exact card_touching_of_dvd_block page.pos positive (Nat.dvd_of_mod_eq_zero pages)

theorem card_le_blockCount (positive : 0 < blockSize) (j : Nat) :
    (touching blockSize page.bytes j).card ≤ (blockCount page blockSize).1 := by
  by_cases same : (blockCount page blockSize).2 = true
  · exact (blockCount_same positive same j).le
  · unfold blockCount at same ⊢
    split_ifs at same ⊢ with fits whole rest pages
    · exact absurd rfl same
    · exact absurd rfl same
    · exact card_touching_le positive
    · exact absurd rfl same
    · exact card_touching_le_two positive (by omega)

theorem blockCount_bounds (positive : 0 < blockSize) :
    0 < (blockCount page blockSize).1 ∧ (blockCount page blockSize).1 < 2 ^ 64 := by
  have small : page.bytes / blockSize ≤ page.bytes := Nat.div_le_self _ _
  have most := page.atMost
  unfold blockCount
  split_ifs with fits
  · have some_ : 0 < page.bytes / blockSize := Nat.div_pos fits positive
    constructor
    · exact some_
    · change page.bytes / blockSize < 2 ^ 64
      omega
  · constructor
    · exact Nat.succ_pos _
    · change page.bytes / blockSize + 1 < 2 ^ 64
      omega
  · constructor
    · exact Nat.succ_pos _
    · change page.bytes / blockSize + 2 < 2 ^ 64
      omega
  · exact ⟨by decide, by decide⟩
  · exact ⟨by decide, by decide⟩

/-- `Pn` blocks from the first boundary in a page on reach its end or leave room for less than one
more; a block longer than the page reaches its end. -/
theorem pn_reaches (ctx : PageReleaseContext) (positive : 0 < ctx.blockSize) :
    let pn := if ctx.blockSize < ctx.page.bytes then ctx.page.bytes / ctx.blockSize else 1
    0 < pn ∧ ctx.page.bytes ≤ pn * ctx.blockSize + ctx.blockSize ∧
      (pn * ctx.blockSize ≤ ctx.page.bytes ∨ pn = 1 ∧ ctx.page.bytes ≤ ctx.blockSize) := by
  dsimp only
  split_ifs with small
  · have lower := Nat.div_mul_le_self ctx.page.bytes ctx.blockSize
    have upper := Nat.lt_div_mul_add positive (a := ctx.page.bytes)
    exact ⟨Nat.div_pos small.le positive, upper.le, Or.inl lower⟩
  · exact ⟨Nat.one_pos, by omega, Or.inr ⟨rfl, by omega⟩⟩

/-- The slow path computes the number of blocks of each page, from the boundary at or after its
start, and the boundary for the next page. -/
theorem blocksPerPage_eq (ctx : PageReleaseContext) (positive : 0 < ctx.blockSize) (j : Nat) :
    ctx.blocksPerPage (j * ctx.page.bytes)
        (j * ctx.page.bytes ⌈/⌉ ctx.blockSize * ctx.blockSize) =
      ((touching ctx.blockSize ctx.page.bytes j).card,
        (j + 1) * ctx.page.bytes ⌈/⌉ ctx.blockSize * ctx.blockSize) := by
  have pages := ctx.page.pos
  have lower := le_ceilDiv_mul (x := j * ctx.page.bytes) positive
  have upper := ceilDiv_mul_lt (x := j * ctx.page.bytes) positive
  have pageEnd : (j + 1) * ctx.page.bytes = j * ctx.page.bytes + ctx.page.bytes := Nat.succ_mul _ _
  obtain ⟨some_, reaches, fits⟩ := ctx.pn_reaches positive
  unfold blocksPerPage
  dsimp only
  generalize (if ctx.blockSize < ctx.page.bytes then ctx.page.bytes / ctx.blockSize else 1) = pn
    at some_ reaches fits ⊢
  rw [card_touching_boundary positive]
  by_cases starts : j * ctx.page.bytes ⌈/⌉ ctx.blockSize * ctx.blockSize <
      j * ctx.page.bytes + ctx.page.bytes
  · rw [if_pos starts]
    by_cases more : j * ctx.page.bytes ⌈/⌉ ctx.blockSize * ctx.blockSize + pn * ctx.blockSize <
        j * ctx.page.bytes + ctx.page.bytes
    · have next : (j + 1) * ctx.page.bytes ⌈/⌉ ctx.blockSize =
          j * ctx.page.bytes ⌈/⌉ ctx.blockSize + (pn + 1) := by
        apply next_boundary positive
        · rw [pageEnd, Nat.add_mul, Nat.add_mul, Nat.one_mul]
          omega
        · refine Or.inr ?_
          rw [pageEnd, ← Nat.add_assoc, Nat.add_sub_cancel, Nat.add_mul]
          exact more
      rw [if_pos more, next, Nat.add_sub_cancel_left, Nat.add_mul, Nat.add_mul, Nat.one_mul,
        Nat.add_assoc (_ * _)]
      split_ifs <;> rfl
    · have next : (j + 1) * ctx.page.bytes ⌈/⌉ ctx.blockSize =
          j * ctx.page.bytes ⌈/⌉ ctx.blockSize + pn := by
        apply next_boundary positive
        · rw [pageEnd, Nat.add_mul]
          omega
        · refine Or.inr ?_
          have less : (j * ctx.page.bytes ⌈/⌉ ctx.blockSize + pn - 1) * ctx.blockSize +
              ctx.blockSize =
              j * ctx.page.bytes ⌈/⌉ ctx.blockSize * ctx.blockSize + pn * ctx.blockSize := by
            rw [← Nat.add_mul, ← Nat.succ_mul, Nat.succ_eq_add_one, Nat.sub_add_cancel (by omega)]
          rcases fits with fits | ⟨rfl, _⟩
          · omega
          · omega
      rw [if_neg more, next, Nat.add_sub_cancel_left, Nat.add_mul]
      split_ifs <;> rfl
  · have next : (j + 1) * ctx.page.bytes ⌈/⌉ ctx.blockSize =
        j * ctx.page.bytes ⌈/⌉ ctx.blockSize + 0 := by
      apply next_boundary positive
      · rw [pageEnd, Nat.add_zero]
        omega
      · exact Or.inl rfl
    have single : pn = 1 := by
      rcases fits with fits | ⟨single, _⟩
      · have step : ctx.blockSize ≤ pn * ctx.blockSize := Nat.le_mul_of_pos_left _ some_
        omega
      · exact single
    rw [if_neg starts, if_pos (by omega), next, single]
    simp only [Nat.add_zero, Nat.sub_self, Nat.zero_add]

/-- The pages from the release offset on have been counted as `marked` says. -/
structure Counted (ctx : PageReleaseContext) (m : RegionPageMap) (marked : Nat → Finset Nat) :
    Prop where
  sane : ∃ log, m.Sane log
  max_le : ctx.fullPagesBlockCountMax ≤ m.counterMask
  counters : m.numCounters = ctx.pagesCount
  pages : ∀ i, i < ctx.pagesCount →
    marked (ctx.releasePageOffset + i) ⊆
        touching ctx.blockSize ctx.page.bytes (ctx.releasePageOffset + i) ∧
      (m.get i = (marked (ctx.releasePageOffset + i)).card ∨
        m.get i = m.counterMask ∧ marked (ctx.releasePageOffset + i) =
          touching ctx.blockSize ctx.page.bytes (ctx.releasePageOffset + i))

/-- The maximum is one for all pages. -/
def Sized (ctx : PageReleaseContext) : Prop := 0 < ctx.blockSize ∧
  ctx.fullPagesBlockCountMax = (blockCount ctx.page ctx.blockSize).1 ∧
  ctx.sameBlockCountPerPage = (blockCount ctx.page ctx.blockSize).2

section Counted

variable {ctx : PageReleaseContext} {m : RegionPageMap} {marked : Nat → Finset Nat} {i j : Nat}

theorem Sized.card_le (sized : ctx.Sized) (j : Nat) :
    (touching ctx.blockSize ctx.page.bytes j).card ≤ ctx.fullPagesBlockCountMax := by
  rw [sized.2.1]
  exact card_le_blockCount sized.1 j

/-- A counter that is the mask or the number of blocks of its page counts all of them. -/
theorem Counted.complete (counted : ctx.Counted m marked) (sized : ctx.Sized)
    (inside : i < ctx.pagesCount) (full : m.get i = m.counterMask ∨
      m.get i = (touching ctx.blockSize ctx.page.bytes (ctx.releasePageOffset + i)).card) :
    marked (ctx.releasePageOffset + i) =
      touching ctx.blockSize ctx.page.bytes (ctx.releasePageOffset + i) := by
  obtain ⟨subset, count | ⟨_, all⟩⟩ := counted.pages i inside
  · apply Finset.eq_of_subset_of_card_le subset
    have most := sized.card_le (ctx.releasePageOffset + i)
    have mask := counted.max_le
    omega
  · exact all

/-- Counting blocks of one page that have not been counted on it. -/
theorem Counted.incN (counted : ctx.Counted m marked) (sized : ctx.Sized)
    (inside : i < ctx.pagesCount) {blocks : Finset Nat}
    (touch : blocks ⊆ touching ctx.blockSize ctx.page.bytes (ctx.releasePageOffset + i))
    (fresh : Disjoint (marked (ctx.releasePageOffset + i)) blocks) :
    ctx.Counted (m.incN i blocks.card) (Function.update marked (ctx.releasePageOffset + i)
      (marked (ctx.releasePageOffset + i) ∪ blocks)) := by
  obtain ⟨log, sane⟩ := counted.sane
  obtain ⟨subset, count⟩ := counted.pages i inside
  have union := Finset.union_subset subset touch
  have total := Finset.card_union_of_disjoint fresh
  have most := sized.card_le (ctx.releasePageOffset + i)
  have mask := counted.max_le
  have less := Finset.card_le_card union
  -- where all blocks have been counted there are none to count
  have nothing : marked (ctx.releasePageOffset + i) =
      touching ctx.blockSize ctx.page.bytes (ctx.releasePageOffset + i) → blocks = ∅ := by
    intro all
    rw [← all] at touch
    exact Finset.disjoint_self_iff_empty _ |>.mp (fresh.mono_left touch)
  have room : m.get i + blocks.card ≤ m.counterMask := by
    rcases count with count | ⟨full, all⟩
    · omega
    · rw [nothing all, Finset.card_empty, full]
      exact le_rfl
  obtain ⟨sane', get⟩ := sane.get_incN room
  refine ⟨⟨log, sane'⟩, mask, counted.counters, ?_⟩
  intro k inside'
  rw [get]
  by_cases same : k = i
  · subst same
    rw [if_pos rfl, Function.update_self]
    refine ⟨union, ?_⟩
    rcases count with count | ⟨full, all⟩
    · exact Or.inl (by omega)
    · rw [nothing all, Finset.union_empty, Finset.card_empty, Nat.add_zero]
      exact Or.inr ⟨full, all⟩
  · rw [if_neg same, Function.update_of_ne (by omega)]
    exact counted.pages k inside'

/-- Counting one block on the pages from `first` to `last`, on which it has not been counted. -/
theorem Counted.incRange (counted : ctx.Counted m marked) (sized : ctx.Sized) (first last block : Nat)
    (touch : ∀ k < ctx.pagesCount, first ≤ k → k ≤ last →
      block ∈ touching ctx.blockSize ctx.page.bytes (ctx.releasePageOffset + k))
    (fresh : ∀ k < ctx.pagesCount, first ≤ k → k ≤ last →
      block ∉ marked (ctx.releasePageOffset + k)) :
    ctx.Counted (m.incRange first last) fun page =>
      if ctx.releasePageOffset + first ≤ page ∧ page ≤ ctx.releasePageOffset + last then
        insert block (marked page) else marked page := by
  obtain ⟨log, sane⟩ := counted.sane
  have mask := counted.max_le
  have more : ∀ k, first ≤ k → k ≤ last → k < ctx.pagesCount →
      insert block (marked (ctx.releasePageOffset + k)) ⊆
          touching ctx.blockSize ctx.page.bytes (ctx.releasePageOffset + k) ∧
        m.get k = (marked (ctx.releasePageOffset + k)).card := by
    intro k above below inside
    obtain ⟨subset, count⟩ := counted.pages k inside
    refine ⟨Finset.insert_subset (touch k inside above below) subset, ?_⟩
    rcases count with count | ⟨_, all⟩
    · exact count
    · exact absurd (all ▸ touch k inside above below) (fresh k inside above below)
  have room : ∀ k, first ≤ k → k ≤ last → k < m.numCounters → m.get k + 1 ≤ m.counterMask := by
    intro k above below inside
    rw [counted.counters] at inside
    obtain ⟨subset, count⟩ := more k above below inside
    have less := Finset.card_le_card subset
    rw [Finset.card_insert_of_notMem (fresh k inside above below)] at less
    have most := sized.card_le (ctx.releasePageOffset + k)
    omega
  obtain ⟨sane', get⟩ := sane.get_incRange room
  obtain ⟨counters', mask'⟩ := RegionPageMap.foldl_numCounters (f := RegionPageMap.inc)
    (fun _ _ => ⟨rfl, rfl⟩) (m.range first last) m
  refine ⟨⟨log, sane'⟩, mask'.symm ▸ mask, counters'.trans counted.counters, ?_⟩
  intro k inside
  rw [get, counted.counters]
  by_cases within : first ≤ k ∧ k ≤ last
  · obtain ⟨subset, count⟩ := more k within.1 within.2 inside
    rw [if_pos (by omega), if_pos ⟨within.1, within.2, inside⟩]
    refine ⟨subset, Or.inl ?_⟩
    rw [Finset.card_insert_of_notMem (fresh k inside within.1 within.2), count]
  · rw [if_neg (by omega), if_neg (fun all => within ⟨all.1, all.2.1⟩), Nat.add_zero]
    have mask'' : (m.incRange first last).counterMask = m.counterMask := mask'
    rw [mask'']
    exact counted.pages k inside

/-- Setting the counters of pages from `first` to `last` counts all of their blocks. -/
theorem Counted.setAsAllCountedRange (counted : ctx.Counted m marked) (first last : Nat) :
    ctx.Counted (m.setAsAllCountedRange first last) fun page =>
      if ctx.releasePageOffset + first ≤ page ∧ page ≤ ctx.releasePageOffset + last then
        touching ctx.blockSize ctx.page.bytes page else marked page := by
  obtain ⟨log, sane⟩ := counted.sane
  obtain ⟨sane', get⟩ := sane.get_setAsAllCountedRange first last
  obtain ⟨counters', mask'⟩ := RegionPageMap.foldl_numCounters (f := RegionPageMap.setAsAllCounted)
    (fun _ _ => ⟨rfl, rfl⟩) (m.range first last) m
  have mask'' : (m.setAsAllCountedRange first last).counterMask = m.counterMask := mask'
  refine ⟨⟨log, sane'⟩, mask'.symm ▸ counted.max_le, counters'.trans counted.counters, ?_⟩
  intro k inside
  rw [get, counted.counters, mask'']
  by_cases within : first ≤ k ∧ k ≤ last
  · rw [if_pos (by omega), if_pos ⟨within.1, within.2, inside⟩]
    exact ⟨Finset.Subset.refl _, Or.inr ⟨rfl, rfl⟩⟩
  · rw [if_neg (by omega), if_neg (fun all => within ⟨all.1, all.2.1⟩)]
    exact counted.pages k inside

/-- Reading a page with the right maximum tells whether all its blocks have been counted, and
changes nothing else. -/
theorem Counted.updateAsAllCountedIf (counted : ctx.Counted m marked) (sized : ctx.Sized)
    (inside : i < ctx.pagesCount) {maxCount : Nat}
    (exact_ : maxCount = (touching ctx.blockSize ctx.page.bytes (ctx.releasePageOffset + i)).card) :
    ctx.Counted (m.updateAsAllCountedIf i maxCount).2 marked ∧
      ((m.updateAsAllCountedIf i maxCount).1 = true ↔
        marked (ctx.releasePageOffset + i) =
          touching ctx.blockSize ctx.page.bytes (ctx.releasePageOffset + i)) := by
  unfold RegionPageMap.updateAsAllCountedIf
  split_ifs with full reached
  · exact ⟨counted, iff_of_true rfl (counted.complete sized inside (Or.inl full))⟩
  · have all := counted.complete sized inside (Or.inr (reached.trans exact_))
    refine ⟨?_, iff_of_true rfl all⟩
    obtain ⟨log, sane⟩ := counted.sane
    obtain ⟨sane', get⟩ := sane.get_setAsAllCounted i
    refine ⟨⟨log, sane'⟩, counted.max_le, counted.counters, ?_⟩
    intro k inside'
    rw [get]
    split_ifs with same
    · subst same
      exact ⟨(counted.pages k inside').1, Or.inr ⟨rfl, all⟩⟩
    · exact counted.pages k inside'
  · refine ⟨counted, iff_of_false id ?_⟩
    intro all
    rcases (counted.pages i inside).2 with count | ⟨mask, _⟩
    · rw [all, ← exact_] at count
      exact reached count
    · exact full mask

/-- The page map of a new context has counted nothing. -/
theorem Sized.counted_pageMap (sized : ctx.Sized) : ctx.Counted ctx.pageMap fun _ => ∅ := by
  obtain ⟨positive, small⟩ := @blockCount_bounds ctx.page _ sized.1
  rw [← sized.2.1] at positive small
  obtain ⟨sane, mask, counters, zero⟩ := RegionPageMap.reset_sane ctx.pagesCount positive small
  refine ⟨sane, mask, counters, ?_⟩
  intro k _
  exact ⟨Finset.empty_subset _, Or.inl (zero k)⟩

end Counted

end PageReleaseContext

end Scudo.Primary
