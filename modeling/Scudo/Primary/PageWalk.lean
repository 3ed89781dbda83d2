import Scudo.Lib.Runs
import Scudo.Primary.PageCounts

/-!
`releaseFreeMemoryToOS`: the ranges that are released are the maximal runs of pages of which every
block has been counted.
-/

namespace Scudo.Primary
open Scudo.Lib
open Scudo.Lib.Tiling

namespace FreePagesRangeTracker

/-- The tracker after the first pages, where `good` tells which of them are released. -/
def walk (page : PageSize) (good : Nat → Bool) (count : Nat) : FreePagesRangeTracker :=
  (List.range count).foldl (fun t i => t.processNextPage page (good i)) start

/-- The ranges that the tracker reports in the end. -/
def ranges (page : PageSize) (good : Nat → Bool) (count : Nat) : List (Nat × Nat) :=
  ((walk page good count).closeOpenedRange page).released

/-- A range of pages in bytes. -/
def inBytes (page : PageSize) (range : Nat × Nat) : Nat × Nat :=
  (range.1 * page.bytes, range.2 * page.bytes)

/-- The tracker has seen `k` pages and reported the runs that have ended. -/
structure Follows (page : PageSize) (good : Nat → Bool) (k : Nat) (t : FreePagesRangeTracker)
    (runs : List (Nat × Nat)) : Prop where
  current : t.currentPage = k
  released : t.released = runs.map (inBytes page)
  scan : RunScan (fun i => good i = true) k
    (if t.inRange then some t.currentRangeStatePage else none) runs

section Follows

variable {page : PageSize} {good : Nat → Bool} {k : Nat} {t : FreePagesRangeTracker}
  {runs : List (Nat × Nat)}

/-- The run that is open ends before the next page. -/
theorem closeOpenedRange_released (current : t.currentPage = k)
    (released : t.released = runs.map (inBytes page)) (opened : t.inRange = true) :
    (t.closeOpenedRange page).released =
      (runs ++ [(t.currentRangeStatePage, k)]).map (inBytes page) := by
  unfold closeOpenedRange
  rw [if_pos opened, List.map_append, ← released, current]
  simp only [shiftLeft_pageSizeLog]
  rfl

theorem Follows.processNextPage (follows : Follows page good k t runs) :
    ∃ runs', Follows page good (k + 1) (t.processNextPage page (good k)) runs' := by
  obtain ⟨current, released, scan⟩ := follows
  cases now : good k with
  | true =>
    cases opened : t.inRange with
    | true =>
      rw [if_pos opened] at scan
      refine ⟨runs, ?_, ?_, ?_⟩
      · simp only [FreePagesRangeTracker.processNextPage, opened, if_true, current]
      · simp only [FreePagesRangeTracker.processNextPage, opened, if_true, released]
      · simp only [FreePagesRangeTracker.processNextPage, opened, if_true]
        exact scan.extend now
    | false =>
      simp only [opened, Bool.false_eq_true, if_false] at scan
      refine ⟨runs, ?_, ?_, ?_⟩
      · simp only [FreePagesRangeTracker.processNextPage, opened, Bool.false_eq_true, if_false,
          if_true, current]
      · simp only [FreePagesRangeTracker.processNextPage, opened, Bool.false_eq_true, if_false,
          if_true, released]
      · simp only [FreePagesRangeTracker.processNextPage, opened, Bool.false_eq_true, if_false,
          if_true, current]
        exact scan.begin now
  | false =>
    have bad : ¬good k = true := by
      rw [now]
      exact Bool.false_ne_true
    cases opened : t.inRange with
    | true =>
      rw [if_pos opened] at scan
      refine ⟨runs ++ [(t.currentRangeStatePage, k)], ?_, ?_, ?_⟩
      · simp only [FreePagesRangeTracker.processNextPage, Bool.false_eq_true, if_false,
          closeOpenedRange, opened, if_true, current]
      · rw [← closeOpenedRange_released current released opened]
        rfl
      · simp only [FreePagesRangeTracker.processNextPage, Bool.false_eq_true, if_false,
          closeOpenedRange, opened, if_true]
        exact scan.close bad
    | false =>
      simp only [opened, Bool.false_eq_true, if_false] at scan
      refine ⟨runs, ?_, ?_, ?_⟩
      · simp only [FreePagesRangeTracker.processNextPage, Bool.false_eq_true, if_false,
          closeOpenedRange, opened, current]
      · simp only [FreePagesRangeTracker.processNextPage, Bool.false_eq_true, if_false,
          closeOpenedRange, opened, released]
      · simp only [FreePagesRangeTracker.processNextPage, Bool.false_eq_true, if_false,
          closeOpenedRange, opened]
        exact scan.skip bad

theorem walk_succ (page : PageSize) (good : Nat → Bool) (k : Nat) :
    walk page good (k + 1) = (walk page good k).processNextPage page (good k) := by
  unfold walk
  rw [List.range_succ, List.foldl_append]
  rfl

theorem walk_follows (page : PageSize) (good : Nat → Bool) (k : Nat) :
    ∃ runs, Follows page good k (walk page good k) runs := by
  induction k with
  | zero => exact ⟨[], rfl, rfl, RunScan.start⟩
  | succ k ih =>
    obtain ⟨runs, follows⟩ := ih
    rw [walk_succ]
    exact follows.processNextPage

theorem walk_congr (page : PageSize) {good good' : Nat → Bool} {count : Nat}
    (same : ∀ k < count, good k = good' k) : walk page good count = walk page good' count := by
  induction count with
  | zero => rfl
  | succ k ih =>
    rw [walk_succ, walk_succ, ih fun i less => same i (Nat.lt_succ_of_lt less),
      same k (Nat.lt_succ_self k)]

/-- The ranges that the tracker reports are the maximal runs of released pages, in order. -/
theorem ranges_maximal (page : PageSize) (good : Nat → Bool) (count : Nat) :
    ∃ runs, ranges page good count = runs.map (inBytes page) ∧
      MaximalRuns (fun i => good i = true) count runs := by
  obtain ⟨runs, current, released, scan⟩ := walk_follows page good count
  cases opened : (walk page good count).inRange with
  | true =>
    rw [if_pos opened] at scan
    exact ⟨_, closeOpenedRange_released current released opened, scan.finishOpened⟩
  | false =>
    simp only [opened, Bool.false_eq_true, if_false] at scan
    refine ⟨runs, ?_, scan.finish⟩
    simp only [ranges, closeOpenedRange, opened, Bool.false_eq_true, if_false, released]

end Follows

end FreePagesRangeTracker

namespace PageReleaseContext

variable {ctx : PageReleaseContext} {m : RegionPageMap} {marked : Nat → Finset Nat}

/-- Every block with bytes in the page has been counted. -/
def Complete (ctx : PageReleaseContext) (marked : Nat → Finset Nat) (i : Nat) : Prop :=
  marked (ctx.releasePageOffset + i) =
    touching ctx.blockSize ctx.page.bytes (ctx.releasePageOffset + i)

instance (ctx : PageReleaseContext) (marked : Nat → Finset Nat) (i : Nat) :
    Decidable (ctx.Complete marked i) :=
  inferInstanceAs (Decidable (marked (ctx.releasePageOffset + i) =
    touching ctx.blockSize ctx.page.bytes (ctx.releasePageOffset + i)))

/-- After the first pages have been walked: the tracker has been told which of them are complete. -/
structure Walked (ctx : PageReleaseContext) (marked : Nat → Finset Nat) (w : PageWalk) (k : Nat) :
    Prop where
  counted : ctx.Counted w.pageMap marked
  tracker : w.rangeTracker =
    FreePagesRangeTracker.walk ctx.page (fun i => decide (ctx.Complete marked i)) k
  prev : ctx.sameBlockCountPerPage = false →
    w.prevPageBoundary = (ctx.releasePageOffset + k) * ctx.page.bytes ∧
    w.currentBoundary =
      (ctx.releasePageOffset + k) * ctx.page.bytes ⌈/⌉ ctx.blockSize * ctx.blockSize

theorem startWalk_walked (counted : ctx.Counted m marked) :
    ctx.Walked marked (ctx.startWalk m) 0 := by
  refine ⟨counted, rfl, ?_⟩
  intro _
  unfold startWalk
  dsimp only
  rw [shiftLeft_pageSizeLog, roundUpSlow_eq, Nat.add_zero]
  split_ifs with offset
  · exact ⟨rfl, rfl⟩
  · have zero : ctx.releasePageOffset = 0 := by omega
    have ceil : 0 ⌈/⌉ ctx.blockSize = 0 := zero_ceilDiv _
    rw [zero, Nat.zero_mul, ceil, Nat.zero_mul]
    exact ⟨rfl, rfl⟩

theorem Walked.walkPage {w : PageWalk} {k : Nat} (walked : ctx.Walked marked w k)
    (sized : ctx.Sized) (inside : k < ctx.pagesCount) :
    ctx.Walked marked (ctx.walkPage w k) (k + 1) := by
  have next : ∀ maxCount, maxCount =
      (touching ctx.blockSize ctx.page.bytes (ctx.releasePageOffset + k)).card →
      ctx.Counted (w.pageMap.updateAsAllCountedIf k maxCount).2 marked ∧
      w.rangeTracker.processNextPage ctx.page (w.pageMap.updateAsAllCountedIf k maxCount).1 =
        FreePagesRangeTracker.walk ctx.page (fun i => decide (ctx.Complete marked i)) (k + 1) := by
    intro maxCount is
    obtain ⟨counted, complete⟩ := walked.counted.updateAsAllCountedIf sized inside is
    have flag : (w.pageMap.updateAsAllCountedIf k maxCount).1 =
        decide (ctx.Complete marked k) := by
      rw [Bool.eq_iff_iff, decide_eq_true_eq]
      exact complete
    rw [walked.tracker, flag, FreePagesRangeTracker.walk_succ]
    exact ⟨counted, rfl⟩
  unfold PageReleaseContext.walkPage
  cases same : ctx.sameBlockCountPerPage with
  | true =>
    have is : ctx.fullPagesBlockCountMax =
        (touching ctx.blockSize ctx.page.bytes (ctx.releasePageOffset + k)).card := by
      obtain ⟨positive, maximum, shape⟩ := sized
      rw [maximum, blockCount_same positive (shape.symm.trans same)]
    obtain ⟨counted, tracker⟩ := next _ is
    rw [if_pos rfl]
    refine ⟨counted, tracker, ?_⟩
    intro never
    rw [same] at never
    cases never
  | false =>
    obtain ⟨prev, boundary⟩ := walked.prev same
    have blocks := ctx.blocksPerPage_eq sized.1 (ctx.releasePageOffset + k)
    rw [if_neg Bool.false_ne_true, prev, boundary]
    dsimp only
    rw [blocks]
    obtain ⟨counted, tracker⟩ := next _ rfl
    refine ⟨counted, tracker, ?_⟩
    intro _
    exact ⟨(Nat.succ_mul _ _).symm, rfl⟩

/-- The loops of `releaseFreeMemoryToOS`, fast or slow, report the runs of complete pages. -/
theorem releaseFreeMemoryToOS_eq (sized : ctx.Sized) (counted : ctx.Counted m marked) :
    ctx.releaseFreeMemoryToOS m = FreePagesRangeTracker.ranges ctx.page
      (fun i => decide (ctx.Complete marked i)) ctx.pagesCount := by
  have walked : ∀ k ≤ ctx.pagesCount,
      ctx.Walked marked ((List.range k).foldl ctx.walkPage (ctx.startWalk m)) k := by
    intro k
    induction k with
    | zero => exact fun _ => startWalk_walked counted
    | succ k ih =>
      intro le
      rw [List.range_succ, List.foldl_append]
      exact (ih (by omega)).walkPage sized le
  unfold releaseFreeMemoryToOS FreePagesRangeTracker.ranges
  dsimp only
  rw [(walked ctx.pagesCount le_rfl).tracker]

/-- Only complete pages are released, and all of them. -/
theorem releaseFreeMemoryToOS_complete (sized : ctx.Sized) (counted : ctx.Counted m marked) :
    (∀ range ∈ ctx.releaseFreeMemoryToOS m, ∃ first last,
      range = (first * ctx.page.bytes, last * ctx.page.bytes) ∧ last ≤ ctx.pagesCount ∧
        ∀ i, first ≤ i → i < last → ctx.Complete marked i) ∧
      ∀ i < ctx.pagesCount, ctx.Complete marked i → ∃ first last,
        (first * ctx.page.bytes, last * ctx.page.bytes) ∈ ctx.releaseFreeMemoryToOS m ∧
          first ≤ i ∧ i < last := by
  obtain ⟨runs, same, maximal⟩ := FreePagesRangeTracker.ranges_maximal ctx.page
    (fun i => decide (ctx.Complete marked i)) ctx.pagesCount
  rw [releaseFreeMemoryToOS_eq sized counted, same]
  constructor
  · intro range member
    obtain ⟨run, inRuns, rfl⟩ := List.mem_map.mp member
    obtain ⟨_, inside, good, _⟩ := maximal.run run inRuns
    refine ⟨run.1, run.2, rfl, inside, ?_⟩
    intro i above below
    exact of_decide_eq_true (good i above below)
  · intro i inside complete
    obtain ⟨run, inRuns, above, below⟩ := maximal.covers i inside (decide_eq_true complete)
    exact ⟨run.1, run.2, List.mem_map_of_mem inRuns, above, below⟩

end PageReleaseContext

end Scudo.Primary
