import Scudo.Primary.PageCounts

/-!
The two ways of marking blocks. What each adds to the marked blocks of the pages are the blocks that
it is given, and with the last one those that the last page of the region would have after its end.
-/

namespace Scudo.Primary
open Scudo.Lib
open Scudo.Lib.Tiling

namespace PageReleaseContext

/-- The page map counts what was marked before and the new blocks, on every page that has bytes of
them. -/
def Adds (ctx : PageReleaseContext) (m : RegionPageMap) (before : Nat → Finset Nat)
    (new : Nat → Prop) : Prop :=
  ∃ after, ctx.Counted m after ∧ ∀ k < ctx.pagesCount, ∀ i,
    i ∈ after (ctx.releasePageOffset + k) ↔ i ∈ before (ctx.releasePageOffset + k) ∨
      new i ∧ i ∈ touching ctx.blockSize ctx.page.bytes (ctx.releasePageOffset + k)

/-- None of the new blocks is marked. -/
def Fresh (ctx : PageReleaseContext) (before : Nat → Finset Nat) (new : Nat → Prop) : Prop :=
  ∀ k < ctx.pagesCount, ∀ i, new i → i ∉ before (ctx.releasePageOffset + k)

/-- Every page with a counter starts in the region. -/
def Starts (ctx : PageReleaseContext) (n : Nat) : Prop :=
  ∀ k < ctx.pagesCount, (ctx.releasePageOffset + k) * ctx.page.bytes < n * ctx.blockSize

/-- A region of `n` blocks of which the pages below `limit` have counters. -/
structure Covers (ctx : PageReleaseContext) (n limit : Nat) : Prop where
  sized : ctx.Sized
  limit_le : limit ≤ n * ctx.blockSize
  fits : n * ctx.blockSize + ctx.blockSize + ctx.page.bytes ≤ 2 ^ 64
  inside : ∀ x < limit, x / ctx.page.bytes - ctx.releasePageOffset < ctx.pagesCount

variable {ctx : PageReleaseContext} {m : RegionPageMap} {marked : Nat → Finset Nat}
  {new : Nat → Prop} {n limit : Nat}

theorem getPageIndex_eq (ctx : PageReleaseContext) (p : Nat) :
    ctx.getPageIndex p = p / ctx.page.bytes - ctx.releasePageOffset := by
  unfold getPageIndex
  rw [shiftRight_pageSizeLog]

/-- Counting some blocks of one page. -/
theorem Counted.marks_incN (counted : ctx.Counted m marked) (sized : ctx.Sized) {p : Nat}
    (above : ctx.releasePageOffset ≤ p / ctx.page.bytes)
    (inside : p / ctx.page.bytes - ctx.releasePageOffset < ctx.pagesCount) {blocks : Finset Nat}
    (touch : blocks ⊆ touching ctx.blockSize ctx.page.bytes (p / ctx.page.bytes))
    (fresh : Disjoint (marked (p / ctx.page.bytes)) blocks) :
    ∃ marked', ctx.Counted (m.incN (ctx.getPageIndex p) blocks.card) marked' ∧
      (∀ j, j ≠ p / ctx.page.bytes → marked' j = marked j) ∧
      marked' (p / ctx.page.bytes) = marked (p / ctx.page.bytes) ∪ blocks := by
  have page : ctx.releasePageOffset + (p / ctx.page.bytes - ctx.releasePageOffset) =
      p / ctx.page.bytes := Nat.add_sub_cancel' above
  have touch' : blocks ⊆ touching ctx.blockSize ctx.page.bytes
      (ctx.releasePageOffset + (p / ctx.page.bytes - ctx.releasePageOffset)) := by
    rw [page]
    exact touch
  have counted' := counted.incN sized inside touch' (by rw [page]; exact fresh)
  rw [page] at counted'
  rw [getPageIndex_eq]
  exact ⟨_, counted', fun j different => Function.update_of_ne different _ _,
    Function.update_self ..⟩

/-- What counts for the pages with counters is what is marked there. -/
theorem Counted.congr {after : Nat → Finset Nat} (counted : ctx.Counted m marked)
    (same : ∀ k < ctx.pagesCount,
      after (ctx.releasePageOffset + k) = marked (ctx.releasePageOffset + k)) :
    ctx.Counted m after := by
  refine ⟨counted.sane, counted.max_le, counted.counters, ?_⟩
  intro k inside
  rw [same k inside]
  exact counted.pages k inside

theorem Adds.of_nothing (counted : ctx.Counted m marked) (nothing : ∀ k < ctx.pagesCount, ∀ i, new i →
    i ∉ touching ctx.blockSize ctx.page.bytes (ctx.releasePageOffset + k)) :
    ctx.Adds m marked new := by
  refine ⟨marked, counted, ?_⟩
  intro k inside i
  constructor
  · exact Or.inl
  · rintro (before | ⟨is, touches⟩)
    · exact before
    · exact absurd touches (nothing k inside i is)

theorem Adds.of_iff {new' : Nat → Prop} (adds : ctx.Adds m marked new) (same : ∀ i, new' i ↔ new i) :
    ctx.Adds m marked new' := by
  obtain ⟨after, counted, exact_⟩ := adds
  refine ⟨after, counted, ?_⟩
  intro k inside i
  rw [exact_ k inside, same]

/-- New blocks after others. -/
theorem Adds.andThen {m' : RegionPageMap} {new' : Nat → Prop} (adds : ctx.Adds m marked new)
    (fresh : ctx.Fresh marked new') (apart : ∀ i, new' i → ¬new i)
    (next : ∀ after, ctx.Counted m after → ctx.Fresh after new' → ctx.Adds m' after new') :
    ctx.Adds m' marked fun i => new i ∨ new' i := by
  obtain ⟨after, counted, exact_⟩ := adds
  have fresh' : ctx.Fresh after new' := by
    intro k counter i is now
    rcases (exact_ k counter i).mp now with before | ⟨other, _⟩
    · exact fresh k counter i is before
    · exact apart i is other
  obtain ⟨final, counted', exact'⟩ := next after counted fresh'
  refine ⟨final, counted', ?_⟩
  intro k counter i
  rw [exact' k counter, exact_ k counter, or_assoc, ← or_and_right]

/-- New blocks that have bytes in one page only, as far as there are counters. -/
theorem Counted.adds_incN (counted : ctx.Counted m marked) (sized : ctx.Sized) {p : Nat}
    (above : ctx.releasePageOffset ≤ p / ctx.page.bytes)
    (inside : p / ctx.page.bytes - ctx.releasePageOffset < ctx.pagesCount) {blocks : Finset Nat}
    (fresh : ctx.Fresh marked new)
    (only : ∀ k < ctx.pagesCount, ∀ i,
      new i ∧ i ∈ touching ctx.blockSize ctx.page.bytes (ctx.releasePageOffset + k) ↔
        ctx.releasePageOffset + k = p / ctx.page.bytes ∧ i ∈ blocks) :
    ctx.Adds (m.incN (ctx.getPageIndex p) blocks.card) marked new := by
  have page : ctx.releasePageOffset + (p / ctx.page.bytes - ctx.releasePageOffset) =
      p / ctx.page.bytes := Nat.add_sub_cancel' above
  have here : ∀ i ∈ blocks, new i ∧
      i ∈ touching ctx.blockSize ctx.page.bytes (p / ctx.page.bytes) := by
    intro i member
    have both := (only _ inside i).mpr ⟨page, member⟩
    rwa [page] at both
  have disjoint : Disjoint (marked (p / ctx.page.bytes)) blocks := by
    rw [Finset.disjoint_right]
    intro i member
    have free := fresh _ inside i (here i member).1
    rwa [page] at free
  obtain ⟨after, counted', others, own⟩ := counted.marks_incN sized above inside
    (fun i member => (here i member).2) disjoint
  refine ⟨after, counted', ?_⟩
  intro k counter i
  rw [only k counter]
  by_cases same : ctx.releasePageOffset + k = p / ctx.page.bytes
  · rw [same, own, Finset.mem_union]
    simp only [true_and]
  · rw [others _ same]
    simp only [same, false_and, or_false]

section Block

/-- A block has bytes in the pages from that of its first byte to that of its last one. -/
theorem mem_touching_iff_pages (positive : 0 < ctx.blockSize) {i j : Nat} :
    i ∈ touching ctx.blockSize ctx.page.bytes j ↔ i * ctx.blockSize / ctx.page.bytes ≤ j ∧
      j ≤ (i * ctx.blockSize + ctx.blockSize - 1) / ctx.page.bytes := by
  have pages := ctx.page.pos
  rw [mem_touching positive, ← Nat.div_lt_iff_lt_mul pages, Nat.lt_succ_iff,
    Nat.le_div_iff_mul_le pages, Nat.add_mul i, Nat.one_mul]
  constructor
  · rintro ⟨first, last⟩
    exact ⟨first, by omega⟩
  · rintro ⟨first, last⟩
    exact ⟨first, by omega⟩

/-- Where pages are whole numbers of blocks, a block has bytes in one page. -/
theorem last_page_of_dvd (positive : 0 < ctx.blockSize) (whole : ctx.blockSize ∣ ctx.page.bytes)
    (i : Nat) : (i * ctx.blockSize + ctx.blockSize - 1) / ctx.page.bytes =
      i * ctx.blockSize / ctx.page.bytes := by
  obtain ⟨q, pages⟩ := whole
  rw [pages, ← Nat.div_div_eq_div_mul, ← Nat.div_div_eq_div_mul, Nat.mul_div_cancel _ positive]
  congr 1
  rw [Nat.div_eq_iff positive]
  omega

theorem markBlock_adds (covers : ctx.Covers n limit) (counted : ctx.Counted m marked) {i : Nat}
    (above : ctx.releasePageOffset ≤ i * ctx.blockSize / ctx.page.bytes)
    (below : i * ctx.blockSize < limit) (fresh : ctx.Fresh marked fun k => k = i) :
    ctx.Adds (ctx.markBlock m (i * ctx.blockSize)) marked fun k => k = i := by
  have positive := covers.sized.1
  unfold markBlock
  split_ifs with single
  · have page := last_page_of_dvd positive (Nat.dvd_of_mod_eq_zero single.2) i
    have adds : ctx.Adds (m.incN (ctx.getPageIndex (i * ctx.blockSize)) ({i} : Finset Nat).card)
        marked fun k => k = i := by
      apply counted.adds_incN covers.sized above (covers.inside _ below) fresh
      intro k _ other
      rw [Finset.mem_singleton]
      constructor
      · rintro ⟨rfl, touches⟩
        rw [mem_touching_iff_pages positive, page] at touches
        exact ⟨le_antisymm touches.2 touches.1, rfl⟩
      · rintro ⟨same, rfl⟩
        rw [mem_touching_iff_pages positive, page]
        exact ⟨rfl, same.ge, same.le⟩
    exact adds
  · have last : ctx.releasePageOffset ≤
        (i * ctx.blockSize + ctx.blockSize - 1) / ctx.page.bytes :=
      above.trans (Nat.div_le_div_right (by omega))
    have first : ctx.releasePageOffset + ctx.getPageIndex (i * ctx.blockSize) =
        i * ctx.blockSize / ctx.page.bytes := by
      rw [getPageIndex_eq]
      exact Nat.add_sub_cancel' above
    have final : ctx.releasePageOffset +
        ctx.getPageIndex (i * ctx.blockSize + ctx.blockSize - 1) =
          (i * ctx.blockSize + ctx.blockSize - 1) / ctx.page.bytes := by
      rw [getPageIndex_eq]
      exact Nat.add_sub_cancel' last
    have counted' := counted.incRange covers.sized (ctx.getPageIndex (i * ctx.blockSize))
      (ctx.getPageIndex (i * ctx.blockSize + ctx.blockSize - 1)) i ?_ ?_
    · refine ⟨_, counted', ?_⟩
      intro k _ other
      rw [first, final]
      split_ifs with within
      · rw [Finset.mem_insert, or_comm]
        constructor
        · rintro (before | rfl)
          · exact Or.inl before
          · exact Or.inr ⟨rfl, (mem_touching_iff_pages positive).mpr within⟩
        · exact Or.imp id And.left
      · constructor
        · exact Or.inl
        · rintro (before | ⟨rfl, touches⟩)
          · exact before
          · exact absurd ((mem_touching_iff_pages positive).mp touches) within
    · intro k _ from_ upTo
      rw [mem_touching_iff_pages positive]
      omega
    · intro k inside _ _
      exact fresh k inside i rfl

/-- The multiples from one number on that are below another one. -/
theorem card_from {i x y : Nat} (positive : 0 < y) (le : i * y ≤ x) :
    (Finset.Ico i (x ⌈/⌉ y)).card = (x - i * y) ⌈/⌉ y := by
  rw [Nat.card_Ico]
  symm
  have lower := le_ceilDiv_mul (x := x) positive
  have upper := ceilDiv_mul_lt (x := x) positive
  have multiple : (x ⌈/⌉ y - i) * y = x ⌈/⌉ y * y - i * y := Nat.sub_mul _ _ _
  apply ceilDiv_eq positive
  · rw [multiple]
    omega
  · rw [multiple]
    omega

/-- The blocks that start in a page from a block of it on. -/
theorem touching_from (positive : 0 < ctx.blockSize) {i : Nat} :
    Finset.Ico i ((i * ctx.blockSize / ctx.page.bytes + 1) * ctx.page.bytes ⌈/⌉ ctx.blockSize) ⊆
      touching ctx.blockSize ctx.page.bytes (i * ctx.blockSize / ctx.page.bytes) := by
  have lower := Nat.div_mul_le_self (i * ctx.blockSize) ctx.page.bytes
  intro k member
  obtain ⟨above, below⟩ := Finset.mem_Ico.mp member
  rw [lt_ceilDiv positive] at below
  rw [mem_touching positive]
  refine ⟨below, ?_⟩
  have step : (i + 1) * ctx.blockSize ≤ (k + 1) * ctx.blockSize := Nat.mul_le_mul_right _ (by omega)
  rw [Nat.add_mul i, Nat.one_mul] at step
  omega

/-- The end of the page of an address that does not start it. -/
theorem roundUp_page {page : PageSize} {x : Nat} (bound : x + page.bytes ≤ 2 ^ 64)
    (inside : x % page.bytes ≠ 0) : roundUp 64 x page.bytes = (x / page.bytes + 1) * page.bytes := by
  have pages := page.pos
  have most := page.atMost
  have split := Nat.div_add_mod x page.bytes
  have small := Nat.mod_lt x pages
  rw [roundUp_eq page.power (by omega) (by omega), roundUpSlow_eq]
  congr 1
  apply ceilDiv_eq pages
  · rw [Nat.add_mul, Nat.one_mul, Nat.mul_comm (x / page.bytes)]
    omega
  · rw [Nat.add_mul, Nat.one_mul, Nat.mul_comm (x / page.bytes)]
    omega

theorem markTrailingBlocks_adds (covers : ctx.Covers n limit) (starts : ctx.Starts n)
    (counted : ctx.Counted m marked) (reaches : limit = n * ctx.blockSize) (some_ : 0 < n)
    (above : ctx.releasePageOffset ≤ n * ctx.blockSize / ctx.page.bytes)
    (fresh : ctx.Fresh marked fun i => n ≤ i) :
    ctx.Adds (ctx.markTrailingBlocks m (n * ctx.blockSize)) marked fun i => n ≤ i := by
  have positive := covers.sized.1
  have pages := ctx.page.pos
  have fits := covers.fits
  have base : (n * ctx.blockSize / ctx.blockSize - 1) * ctx.blockSize + ctx.blockSize =
      n * ctx.blockSize := by
    rw [Nat.mul_div_cancel _ positive, ← Nat.succ_mul, Nat.succ_eq_add_one, Nat.sub_add_cancel some_]
  -- a page with a counter and bytes of such a block is the one with the end of the region
  have lastPage : ∀ k < ctx.pagesCount, ∀ i, n ≤ i →
      i ∈ touching ctx.blockSize ctx.page.bytes (ctx.releasePageOffset + k) →
        ctx.releasePageOffset + k = n * ctx.blockSize / ctx.page.bytes ∧
          n * ctx.blockSize % ctx.page.bytes ≠ 0 := by
    intro k inside i after touches
    have start := starts k inside
    obtain ⟨less, _⟩ := (mem_touching positive).mp touches
    have order : n * ctx.blockSize ≤ i * ctx.blockSize := Nat.mul_le_mul_right _ after
    have page : n * ctx.blockSize / ctx.page.bytes = ctx.releasePageOffset + k := by
      rw [Nat.div_eq_iff pages]
      rw [Nat.add_mul _ 1, Nat.one_mul] at less
      omega
    refine ⟨page.symm, ?_⟩
    intro whole
    have split := Nat.div_add_mod (n * ctx.blockSize) ctx.page.bytes
    rw [page, whole, Nat.mul_comm] at split
    omega
  unfold markTrailingBlocks
  dsimp only
  rw [base, roundUpSlow_eq, ← Nat.ceilDiv_eq_add_pred_div, ceilDiv_mul_self positive]
  by_cases partial_ : n * ctx.blockSize % ctx.page.bytes = 0
  · rw [roundUp_of_dvd ctx.page.power (by omega) (by omega) (Nat.dvd_of_mod_eq_zero partial_),
      Nat.sub_self, zero_ceilDiv, if_neg (lt_irrefl 0)]
    apply Adds.of_nothing counted
    intro k inside i after touches
    exact (lastPage k inside i after touches).2 partial_
  · have rounded := @roundUp_page ctx.page _ (by omega) partial_
    have split := Nat.div_add_mod (n * ctx.blockSize) ctx.page.bytes
    have small := Nat.mod_lt (n * ctx.blockSize) pages
    have inside : n * ctx.blockSize / ctx.page.bytes - ctx.releasePageOffset < ctx.pagesCount := by
      have page := covers.inside (n * ctx.blockSize / ctx.page.bytes * ctx.page.bytes) (by
        rw [Nat.mul_comm (_ / _)]
        omega)
      rwa [Nat.mul_div_cancel _ pages] at page
    have less : n * ctx.blockSize <
        (n * ctx.blockSize / ctx.page.bytes + 1) * ctx.page.bytes := by
      rw [Nat.add_mul, Nat.one_mul, Nat.mul_comm (_ / _)]
      omega
    have adds : ctx.Adds (m.incN (ctx.getPageIndex (n * ctx.blockSize))
        (Finset.Ico n ((n * ctx.blockSize / ctx.page.bytes + 1) * ctx.page.bytes ⌈/⌉
          ctx.blockSize)).card) marked fun i => n ≤ i := by
      apply counted.adds_incN covers.sized above inside fresh
      intro k counter i
      rw [Finset.mem_Ico, lt_ceilDiv positive]
      constructor
      · rintro ⟨after, touches⟩
        have page := (lastPage k counter i after touches).1
        rw [page, mem_touching positive] at touches
        exact ⟨page, after, touches.1⟩
      · rintro ⟨page, after, before⟩
        rw [page]
        exact ⟨after, touching_from positive (Finset.mem_Ico.mpr ⟨after, (lt_ceilDiv positive).mpr before⟩)⟩
    rw [card_from positive less.le, ← rounded] at adds
    have trailing : 0 < (roundUp 64 (n * ctx.blockSize) ctx.page.bytes - n * ctx.blockSize) ⌈/⌉
        ctx.blockSize := by
      rw [lt_ceilDiv positive, Nat.zero_mul, rounded]
      omega
    rw [if_pos trailing]
    exact adds

/-- The blocks of a list one by one. -/
theorem markBlocks_adds (covers : ctx.Covers n limit) {order : List Nat} (nodup : order.Nodup)
    (inside : ∀ i ∈ order, ctx.releasePageOffset ≤ i * ctx.blockSize / ctx.page.bytes ∧
      i * ctx.blockSize < limit)
    (counted : ctx.Counted m marked) (fresh : ctx.Fresh marked fun i => i ∈ order) :
    ctx.Adds (order.foldl (fun m i => ctx.markBlock m (i * ctx.blockSize)) m) marked
      fun i => i ∈ order := by
  induction order generalizing m marked with
  | nil => exact Adds.of_nothing counted fun _ _ i member => absurd member List.not_mem_nil
  | cons first rest ih =>
    obtain ⟨new, nodup⟩ := List.nodup_cons.mp nodup
    obtain ⟨above, below⟩ := inside first List.mem_cons_self
    have head := markBlock_adds covers counted above below
      fun k counter i same => fresh k counter i (same ▸ List.mem_cons_self)
    have both := head.andThen
      (fun k counter i member => fresh k counter i (List.mem_cons_of_mem _ member))
      (fun i member same => new (same ▸ member))
      fun after counted' fresh' => ih nodup
        (fun i member => inside i (List.mem_cons_of_mem _ member)) counted' fresh'
    exact both.of_iff fun i => List.mem_cons

/-- The fold over the batches of a free list is one over the numbers of the blocks. -/
theorem foldl_batches {freeList : List TransferBatch} {decompactPtr : Nat → Nat} {base : Nat}
    {order : List Nat} (map : (freeList.flatMap (·.batch)).map (fun p => decompactPtr p - base) =
      order.map (· * ctx.blockSize)) (m : RegionPageMap) :
    freeList.foldl (fun m it => it.batch.foldl (fun m p =>
        ctx.markBlock m (decompactPtr p - base)) m) m =
      order.foldl (fun m i => ctx.markBlock m (i * ctx.blockSize)) m := by
  calc freeList.foldl (fun m it => it.batch.foldl (fun m p =>
        ctx.markBlock m (decompactPtr p - base)) m) m
      = (freeList.flatMap (·.batch)).foldl (fun m p =>
        ctx.markBlock m (decompactPtr p - base)) m := by rw [List.foldl_flatMap]
    _ = (order.map (· * ctx.blockSize)).foldl ctx.markBlock m := by rw [← map, List.foldl_map]
    _ = order.foldl (fun m i => ctx.markBlock m (i * ctx.blockSize)) m := List.foldl_map

/-- The blocks of a free list, and those after the end of the region where the last block may be
among them. -/
theorem markFreeBlocksInRegion_adds (covers : ctx.Covers n limit) (starts : ctx.Starts n)
    (counted : ctx.Counted m marked) {freeList : List TransferBatch} {decompactPtr : Nat → Nat}
    {base : Nat} {order : List Nat} (nodup : order.Nodup)
    (map : (freeList.flatMap (·.batch)).map (fun p => decompactPtr p - base) =
      order.map (· * ctx.blockSize))
    (inside : ∀ i ∈ order, ctx.releasePageOffset ≤ i * ctx.blockSize / ctx.page.bytes ∧
      i * ctx.blockSize < limit) {last : Bool}
    (reaches : last = true → limit = n * ctx.blockSize ∧ 0 < n ∧
      ctx.releasePageOffset ≤ n * ctx.blockSize / ctx.page.bytes)
    (fresh : ctx.Fresh marked fun i => i ∈ order ∨ last = true ∧ n ≤ i) :
    ctx.Adds (ctx.markFreeBlocksInRegion m freeList decompactPtr base (n * ctx.blockSize) last)
      marked fun i => i ∈ order ∨ last = true ∧ n ≤ i := by
  have listed : ctx.Fresh marked fun i => i ∈ order := fun k counter i member =>
    fresh k counter i (Or.inl member)
  unfold markFreeBlocksInRegion
  dsimp only
  rw [foldl_batches map]
  cases last with
  | false =>
    have adds := markBlocks_adds covers nodup inside counted listed
    exact adds.of_iff fun i => or_iff_left fun both => Bool.false_ne_true both.1
  | true =>
    obtain ⟨all, some_, above⟩ := reaches rfl
    have less : ∀ i ∈ order, i < n := by
      intro i member
      have below := (inside i member).2
      rw [all] at below
      exact Nat.lt_of_mul_lt_mul_right below
    -- the blocks after the last one come first, and are none of the list
    have trailing := markTrailingBlocks_adds covers starts counted all some_ above
      fun k counter i after => fresh k counter i (Or.inr ⟨rfl, after⟩)
    have both := trailing.andThen listed (fun i member => Nat.not_le.mpr (less i member))
      fun _ counted' fresh' => markBlocks_adds covers nodup inside counted' fresh'
    apply both.of_iff
    intro i
    rw [or_comm, eq_self, true_and]

end Block

section Range

variable {from_ to_ first : Nat}

/-- What marking a range marks: the blocks that start in it, and with the last block of the region
those after its end. -/
def Ranges (ctx : PageReleaseContext) (n from_ to_ i : Nat) : Prop :=
  from_ ≤ i * ctx.blockSize ∧ i * ctx.blockSize < to_ ∨
    from_ ⌈/⌉ ctx.blockSize < n ∧ to_ ⌈/⌉ ctx.blockSize = n ∧ n ≤ i

/-- The first page of a range counts the blocks that start in it from `first` on, unless `first`
starts the page; the rest of the range begins with the page `next`. -/
theorem markFirstPage_counted (covers : ctx.Covers n limit) (counted : ctx.Counted m marked)
    (above : ctx.releasePageOffset ≤ first * ctx.blockSize / ctx.page.bytes)
    (below : first * ctx.blockSize < limit)
    (fresh : ∀ i, first ≤ i → i * ctx.blockSize <
      (first * ctx.blockSize / ctx.page.bytes + 1) * ctx.page.bytes →
        i ∉ marked (first * ctx.blockSize / ctx.page.bytes)) :
    ∃ after next, ctx.Counted (ctx.markFirstPage m (first * ctx.blockSize)).1 after ∧
      (ctx.markFirstPage m (first * ctx.blockSize)).2 = next * ctx.page.bytes ∧
      first * ctx.blockSize ≤ next * ctx.page.bytes ∧
      (∀ j, j ≠ first * ctx.blockSize / ctx.page.bytes → after j = marked j) ∧
      (next = first * ctx.blockSize / ctx.page.bytes ∧ after = marked ∨
        next = first * ctx.blockSize / ctx.page.bytes + 1 ∧
          ∀ i, i ∈ after (first * ctx.blockSize / ctx.page.bytes) ↔
            i ∈ marked (first * ctx.blockSize / ctx.page.bytes) ∨ first ≤ i ∧
              i * ctx.blockSize <
                (first * ctx.blockSize / ctx.page.bytes + 1) * ctx.page.bytes) := by
  have positive := covers.sized.1
  have pages := ctx.page.pos
  have fits := covers.fits
  have limit_le := covers.limit_le
  have most := ctx.page.atMost
  have lower := Nat.div_mul_le_self (first * ctx.blockSize) ctx.page.bytes
  have upper := Nat.lt_div_mul_add pages (a := first * ctx.blockSize)
  have down : roundDown 64 (first * ctx.blockSize) ctx.page.bytes =
      first * ctx.blockSize / ctx.page.bytes * ctx.page.bytes :=
    roundDown_eq ctx.page.power (by omega) (by omega)
  unfold markFirstPage
  dsimp only
  rw [down]
  split_ifs with straddles
  · have inside : (first * ctx.blockSize / ctx.page.bytes * ctx.page.bytes + 1) %
        ctx.page.bytes ≠ 0 := by
      rw [Nat.mul_add_mod', Nat.mod_eq_of_lt]
      · exact Nat.one_ne_zero
      · have large := ctx.page.atLeast
        omega
    have next : roundUp 64 (first * ctx.blockSize / ctx.page.bytes * ctx.page.bytes + 1)
        ctx.page.bytes = (first * ctx.blockSize / ctx.page.bytes + 1) * ctx.page.bytes := by
      have large := ctx.page.atLeast
      have quotient : (first * ctx.blockSize / ctx.page.bytes * ctx.page.bytes + 1) /
          ctx.page.bytes = first * ctx.blockSize / ctx.page.bytes := by
        have one : 1 / ctx.page.bytes = 0 := Nat.div_eq_of_lt (by omega)
        rw [Nat.mul_comm (_ / _), Nat.mul_add_div pages, one, Nat.add_zero]
      rw [roundUp_page (by omega) inside, quotient]
    have pageEnd : first * ctx.blockSize / ctx.page.bytes * ctx.page.bytes + ctx.page.bytes =
        (first * ctx.blockSize / ctx.page.bytes + 1) * ctx.page.bytes := (Nat.succ_mul _ _).symm
    have disjoint : Disjoint (marked (first * ctx.blockSize / ctx.page.bytes))
        (Finset.Ico first ((first * ctx.blockSize / ctx.page.bytes + 1) * ctx.page.bytes ⌈/⌉
          ctx.blockSize)) := by
      rw [Finset.disjoint_right]
      intro i member
      obtain ⟨least, less⟩ := Finset.mem_Ico.mp member
      exact fresh i least ((lt_ceilDiv positive).mp less)
    obtain ⟨after, counted', others, here⟩ := counted.marks_incN covers.sized above
      (covers.inside _ below) (touching_from positive) disjoint
    have page : ctx.getPageIndex (first * ctx.blockSize / ctx.page.bytes * ctx.page.bytes) =
        ctx.getPageIndex (first * ctx.blockSize) := by
      rw [getPageIndex_eq, getPageIndex_eq, Nat.mul_div_cancel _ pages]
    rw [next, page, pageEnd, ← Nat.ceilDiv_eq_add_pred_div]
    rw [card_from positive (by omega)] at counted'
    refine ⟨after, _, counted', rfl, by omega, others, Or.inr ⟨rfl, ?_⟩⟩
    intro i
    rw [here, Finset.mem_union, Finset.mem_Ico, lt_ceilDiv positive]
  · rw [not_not] at straddles
    exact ⟨marked, _, counted, rfl, straddles.le, fun j _ => rfl, Or.inl ⟨rfl, rfl⟩⟩

/-- The last block of a range is counted on the pages after the range that it has bytes in, unless
it is the last block of the region. -/
theorem markLastBlock_counted (covers : ctx.Covers n limit) (counted : ctx.Counted m marked)
    (some_ : 0 < to_) (inside : to_ ≤ n * ctx.blockSize)
    (ending : ctx.page.bytes ∣ to_ ∨ to_ = n * ctx.blockSize)
    (above : ctx.releasePageOffset ≤ to_ / ctx.page.bytes)
    (fresh : ctx.page.bytes ∣ to_ → ∀ k < ctx.pagesCount,
      to_ / ctx.page.bytes ≤ ctx.releasePageOffset + k →
        to_ ⌈/⌉ ctx.blockSize - 1 ∉ marked (ctx.releasePageOffset + k)) :
    ∃ after, ctx.Counted (ctx.markLastBlock m to_ (n * ctx.blockSize)).1 after ∧
      ((ctx.markLastBlock m to_ (n * ctx.blockSize)).2 = to_ ∧ ctx.page.bytes ∣ to_ ∧
          to_ ⌈/⌉ ctx.blockSize ≠ n ∧
          (∀ j, ctx.releasePageOffset ≤ j → ∀ i, i ∈ after j ↔ i ∈ marked j ∨
            i = to_ ⌈/⌉ ctx.blockSize - 1 ∧ to_ / ctx.page.bytes ≤ j ∧
              i ∈ touching ctx.blockSize ctx.page.bytes j) ∨
        (ctx.markLastBlock m to_ (n * ctx.blockSize)).2 = n * ctx.blockSize ∧
          to_ ⌈/⌉ ctx.blockSize = n ∧ after = marked) := by
  have positive := covers.sized.1
  have pages := ctx.page.pos
  have lower := le_ceilDiv_mul (x := to_) positive
  have upper := ceilDiv_mul_lt (x := to_) positive
  have blocks : 0 < to_ ⌈/⌉ ctx.blockSize := by
    rw [lt_ceilDiv positive, Nat.zero_mul]
    exact some_
  have lastEnd : (to_ ⌈/⌉ ctx.blockSize - 1) * ctx.blockSize + ctx.blockSize =
      to_ ⌈/⌉ ctx.blockSize * ctx.blockSize := by
    rw [← Nat.succ_mul, Nat.succ_eq_add_one, Nat.sub_add_cancel blocks]
  have last : roundDownSlow (to_ - 1) ctx.blockSize =
      (to_ ⌈/⌉ ctx.blockSize - 1) * ctx.blockSize := by
    unfold roundDownSlow
    congr 1
    rw [Nat.div_eq_iff positive]
    omega
  -- the last block reaches the end of the range, and so to its page or over it
  have pagesOf : ∀ j, to_ / ctx.page.bytes ≤ j →
      (to_ ⌈/⌉ ctx.blockSize - 1 ∈ touching ctx.blockSize ctx.page.bytes j ↔
        j ≤ (to_ ⌈/⌉ ctx.blockSize * ctx.blockSize - 1) / ctx.page.bytes) := by
    intro j after
    rw [mem_touching_iff_pages positive, lastEnd]
    have least : (to_ ⌈/⌉ ctx.blockSize - 1) * ctx.blockSize / ctx.page.bytes ≤
        to_ / ctx.page.bytes := Nat.div_le_div_right (by omega)
    constructor
    · exact And.right
    · exact fun upTo => ⟨least.trans after, upTo⟩
  have aligned : to_ ⌈/⌉ ctx.blockSize ≠ n → ctx.page.bytes ∣ to_ := by
    intro inner
    rcases ending with aligned | rfl
    · exact aligned
    · exact absurd (ceilDiv_mul_self positive) inner
  unfold markLastBlock
  dsimp only
  rw [last, lastEnd]
  by_cases inner : to_ ⌈/⌉ ctx.blockSize = n
  · rw [if_neg (by rw [inner, not_not])]
    exact ⟨marked, counted, Or.inr ⟨rfl, inner, rfl⟩⟩
  · have region : to_ ⌈/⌉ ctx.blockSize * ctx.blockSize ≠ n * ctx.blockSize := fun same =>
      inner (Nat.eq_of_mul_eq_mul_right positive same)
    obtain ⟨q, whole⟩ := aligned inner
    rw [if_pos region]
    by_cases straddles : to_ ⌈/⌉ ctx.blockSize * ctx.blockSize = to_
    · rw [if_neg (not_not.mpr straddles)]
      refine ⟨marked, counted, Or.inl ⟨rfl, aligned inner, inner, ?_⟩⟩
      intro j _ i
      constructor
      · exact Or.inl
      · rintro (before | ⟨rfl, after, touches⟩)
        · exact before
        · -- the block ends where the page before ends
          rw [pagesOf j after, straddles, whole, Nat.le_div_iff_mul_le pages] at touches
          rw [whole, Nat.mul_div_cancel_left _ pages] at after
          have step : q * ctx.page.bytes ≤ j * ctx.page.bytes := Nat.mul_le_mul_right _ after
          rw [Nat.mul_comm] at step
          omega
    · rw [if_pos straddles]
      have page : ctx.releasePageOffset + ctx.getPageIndex to_ = to_ / ctx.page.bytes := by
        rw [getPageIndex_eq]
        exact Nat.add_sub_cancel' above
      have pageEnd : ctx.releasePageOffset +
          ctx.getPageIndex (to_ ⌈/⌉ ctx.blockSize * ctx.blockSize - 1) =
            (to_ ⌈/⌉ ctx.blockSize * ctx.blockSize - 1) / ctx.page.bytes := by
        have order : to_ / ctx.page.bytes ≤
            (to_ ⌈/⌉ ctx.blockSize * ctx.blockSize - 1) / ctx.page.bytes :=
          Nat.div_le_div_right (by omega)
        rw [getPageIndex_eq]
        exact Nat.add_sub_cancel' (above.trans order)
      have counted' := counted.incRange covers.sized (ctx.getPageIndex to_)
        (ctx.getPageIndex (to_ ⌈/⌉ ctx.blockSize * ctx.blockSize - 1))
        (to_ ⌈/⌉ ctx.blockSize - 1) ?_ ?_
      · refine ⟨_, counted', Or.inl ⟨rfl, aligned inner, inner, ?_⟩⟩
        intro j _ i
        rw [page, pageEnd]
        split_ifs with within
        · rw [Finset.mem_insert, or_comm]
          constructor
          · rintro (before | rfl)
            · exact Or.inl before
            · exact Or.inr ⟨rfl, within.1, (pagesOf j within.1).mpr within.2⟩
          · exact Or.imp id And.left
        · constructor
          · exact Or.inl
          · rintro (before | ⟨rfl, after, touches⟩)
            · exact before
            · exact absurd ⟨after, (pagesOf j after).mp touches⟩ within
      · intro k _ from_ upTo
        exact (pagesOf _ (by omega)).mpr (by omega)
      · intro k counter from_ _
        exact fresh (aligned inner) k counter (by omega)

theorem ranges_iff (positive : 0 < ctx.blockSize) {i : Nat}
    (some_ : from_ ⌈/⌉ ctx.blockSize < to_ ⌈/⌉ ctx.blockSize) :
    ctx.Ranges n from_ to_ i ↔
      from_ ⌈/⌉ ctx.blockSize ≤ i ∧ (i < to_ ⌈/⌉ ctx.blockSize ∨ to_ ⌈/⌉ ctx.blockSize = n) := by
  unfold Ranges
  rw [← ceilDiv_le positive, ← lt_ceilDiv positive]
  omega

/-- The pages between are counted as a whole. -/
theorem Counted.setPages (counted : ctx.Counted m marked) {next stop : Nat}
    (above : ctx.releasePageOffset ≤ next) :
    ctx.Counted (if next * ctx.page.bytes < stop then
        m.setAsAllCountedRange (ctx.getPageIndex (next * ctx.page.bytes)) (ctx.getPageIndex (stop - 1))
      else m) fun j => if next ≤ j ∧ j * ctx.page.bytes < stop then
        touching ctx.blockSize ctx.page.bytes j else marked j := by
  have pages := ctx.page.pos
  by_cases some_ : next * ctx.page.bytes < stop
  · rw [if_pos some_]
    have first : ctx.releasePageOffset + ctx.getPageIndex (next * ctx.page.bytes) = next := by
      rw [getPageIndex_eq, Nat.mul_div_cancel _ pages]
      exact Nat.add_sub_cancel' above
    have reach : next ≤ (stop - 1) / ctx.page.bytes := by
      rw [Nat.le_div_iff_mul_le pages]
      omega
    have last : ctx.releasePageOffset + ctx.getPageIndex (stop - 1) = (stop - 1) / ctx.page.bytes := by
      rw [getPageIndex_eq]
      exact Nat.add_sub_cancel' (above.trans reach)
    have counted' := counted.setAsAllCountedRange (ctx.getPageIndex (next * ctx.page.bytes))
      (ctx.getPageIndex (stop - 1))
    rw [first, last] at counted'
    apply counted'.congr
    intro k _
    congr 1
    rw [eq_iff_iff, Nat.le_div_iff_mul_le pages]
    omega
  · rw [if_neg some_]
    apply counted.congr
    intro k _
    rw [if_neg]
    rintro ⟨after, before⟩
    have step : next * ctx.page.bytes ≤ (ctx.releasePageOffset + k) * ctx.page.bytes :=
      Nat.mul_le_mul_right _ after
    omega

/-- The page of the first block of a range ends in it, where the range ends with a page. -/
theorem first_page_le (less : first * ctx.blockSize < to_) (aligned : ctx.page.bytes ∣ to_) :
    (first * ctx.blockSize / ctx.page.bytes + 1) * ctx.page.bytes ≤ to_ := by
  obtain ⟨q, rfl⟩ := aligned
  rw [Nat.mul_comm ctx.page.bytes]
  exact Nat.mul_le_mul_right _ (Nat.div_lt_of_lt_mul less)

/-- What starts in the page of the first block from that block on is marked. -/
theorem Ranges.of_first_page (positive : 0 < ctx.blockSize)
    (ending : ctx.page.bytes ∣ to_ ∨ to_ = n * ctx.blockSize)
    (some_ : from_ ⌈/⌉ ctx.blockSize < to_ ⌈/⌉ ctx.blockSize) {i : Nat}
    (least : from_ ⌈/⌉ ctx.blockSize ≤ i) (less : i * ctx.blockSize <
      (from_ ⌈/⌉ ctx.blockSize * ctx.blockSize / ctx.page.bytes + 1) * ctx.page.bytes) :
    ctx.Ranges n from_ to_ i := by
  rw [ranges_iff positive some_, lt_ceilDiv positive]
  refine ⟨least, ?_⟩
  rcases ending with aligned | rfl
  · exact Or.inl (less.trans_le (first_page_le ((lt_ceilDiv positive).mp some_) aligned))
  · exact Or.inr (ceilDiv_mul_self positive)

/-- Nothing is marked on the pages before that of the first block. -/
theorem Ranges.not_touching (positive : 0 < ctx.blockSize)
    (some_ : from_ ⌈/⌉ ctx.blockSize < to_ ⌈/⌉ ctx.blockSize) {i j : Nat}
    (is : ctx.Ranges n from_ to_ i)
    (earlier : j < from_ ⌈/⌉ ctx.blockSize * ctx.blockSize / ctx.page.bytes) :
    i ∉ touching ctx.blockSize ctx.page.bytes j := by
  intro touches
  have least := ((ranges_iff positive some_).mp is).1
  have less := ((mem_touching positive).mp touches).1
  have start : (j + 1) * ctx.page.bytes ≤ from_ ⌈/⌉ ctx.blockSize * ctx.blockSize :=
    (Nat.le_div_iff_mul_le ctx.page.pos).mp earlier
  have order : from_ ⌈/⌉ ctx.blockSize * ctx.blockSize ≤ i * ctx.blockSize :=
    Nat.mul_le_mul_right _ least
  omega

/-- On the page of the first block those are marked that start in it from that block on. -/
theorem Ranges.on_first_page (positive : 0 < ctx.blockSize)
    (ending : ctx.page.bytes ∣ to_ ∨ to_ = n * ctx.blockSize)
    (some_ : from_ ⌈/⌉ ctx.blockSize < to_ ⌈/⌉ ctx.blockSize) {i : Nat} :
    from_ ⌈/⌉ ctx.blockSize ≤ i ∧ i * ctx.blockSize <
        (from_ ⌈/⌉ ctx.blockSize * ctx.blockSize / ctx.page.bytes + 1) * ctx.page.bytes ↔
      ctx.Ranges n from_ to_ i ∧ i ∈ touching ctx.blockSize ctx.page.bytes
        (from_ ⌈/⌉ ctx.blockSize * ctx.blockSize / ctx.page.bytes) := by
  constructor
  · rintro ⟨least, less⟩
    refine ⟨of_first_page positive ending some_ least less, touching_from positive ?_⟩
    exact Finset.mem_Ico.mpr ⟨least, (lt_ceilDiv positive).mpr less⟩
  · rintro ⟨is, touches⟩
    exact ⟨((ranges_iff positive some_).mp is).1, ((mem_touching positive).mp touches).1⟩

/-- All blocks are marked that have bytes in a page between the first block and the end. -/
theorem Ranges.of_touching (positive : 0 < ctx.blockSize)
    (some_ : from_ ⌈/⌉ ctx.blockSize < to_ ⌈/⌉ ctx.blockSize) {i j : Nat}
    (after : from_ ⌈/⌉ ctx.blockSize * ctx.blockSize ≤ j * ctx.page.bytes)
    (before : ctx.page.bytes ∣ to_ ∧ j * ctx.page.bytes < to_ ∨ to_ ⌈/⌉ ctx.blockSize = n)
    (touches : i ∈ touching ctx.blockSize ctx.page.bytes j) : ctx.Ranges n from_ to_ i := by
  obtain ⟨less, reaches⟩ := (mem_touching positive).mp touches
  refine (ranges_iff positive some_).mpr ⟨?_, ?_⟩
  · have start : from_ ⌈/⌉ ctx.blockSize * ctx.blockSize < (i + 1) * ctx.blockSize := by omega
    exact Nat.lt_succ_iff.mp (Nat.lt_of_mul_lt_mul_right start)
  · rcases before with ⟨⟨q, rfl⟩, upTo⟩ | last
    · rw [Nat.mul_comm] at upTo
      have page := Nat.lt_of_mul_lt_mul_left upTo
      have step : (j + 1) * ctx.page.bytes ≤ q * ctx.page.bytes := Nat.mul_le_mul_right _ page
      rw [lt_ceilDiv positive, Nat.mul_comm ctx.page.bytes]
      exact Or.inl (less.trans_le step)
    · exact Or.inr last

/-- Only the last block of a range that ends with a page has bytes after it. -/
theorem Ranges.eq_last (positive : 0 < ctx.blockSize) (aligned : ctx.page.bytes ∣ to_)
    (inner : to_ ⌈/⌉ ctx.blockSize ≠ n)
    (some_ : from_ ⌈/⌉ ctx.blockSize < to_ ⌈/⌉ ctx.blockSize) {i j : Nat}
    (is : ctx.Ranges n from_ to_ i) (after : to_ / ctx.page.bytes ≤ j)
    (touches : i ∈ touching ctx.blockSize ctx.page.bytes j) : i = to_ ⌈/⌉ ctx.blockSize - 1 := by
  have start : to_ / ctx.page.bytes * ctx.page.bytes ≤ j * ctx.page.bytes :=
    Nat.mul_le_mul_right _ after
  rw [Nat.div_mul_cancel aligned] at start
  have reaches := (ceilDiv_le positive).mpr
    (start.trans ((mem_touching positive).mp touches).2.le)
  rw [ranges_iff positive some_] at is
  omega

/-- A range of pages, up to the end of the region or not, of which no block is marked. -/
theorem markRangeAsAllCounted_adds (covers : ctx.Covers n limit) (starts : ctx.Starts n)
    (counted : ctx.Counted m marked) (base : Nat) (inside : to_ ≤ limit)
    (ending : ctx.page.bytes ∣ to_ ∨ to_ = n * ctx.blockSize)
    (above : ctx.releasePageOffset * ctx.page.bytes ≤ from_)
    (fresh : ctx.Fresh marked (ctx.Ranges n from_ to_)) :
    ctx.Adds (ctx.markRangeAsAllCounted m (base + from_) (base + to_) base (n * ctx.blockSize))
      marked (ctx.Ranges n from_ to_) := by
  have positive := covers.sized.1
  have pages := ctx.page.pos
  have limit_le := covers.limit_le
  have lower := le_ceilDiv_mul (x := from_) positive
  unfold markRangeAsAllCounted
  dsimp only
  rw [Nat.add_sub_cancel_left, Nat.add_sub_cancel_left, roundUpSlow_eq]
  by_cases none_ : to_ ≤ from_ ⌈/⌉ ctx.blockSize * ctx.blockSize
  · rw [if_pos none_]
    apply Adds.of_nothing counted
    intro k _ i is
    rw [← ceilDiv_le positive] at none_
    unfold Ranges at is
    rw [← ceilDiv_le positive, ← lt_ceilDiv positive] at is
    omega
  rw [if_neg none_]
  rw [Nat.not_le] at none_
  have some_ : from_ ⌈/⌉ ctx.blockSize < to_ ⌈/⌉ ctx.blockSize := (lt_ceilDiv positive).mpr none_
  have offset : ctx.releasePageOffset ≤ from_ ⌈/⌉ ctx.blockSize * ctx.blockSize / ctx.page.bytes := by
    rw [Nat.le_div_iff_mul_le pages]
    exact above.trans lower
  have atFirst : ctx.releasePageOffset + (from_ ⌈/⌉ ctx.blockSize * ctx.blockSize / ctx.page.bytes -
      ctx.releasePageOffset) = from_ ⌈/⌉ ctx.blockSize * ctx.blockSize / ctx.page.bytes :=
    Nat.add_sub_cancel' offset
  obtain ⟨after₁, next, counted₁, next_eq, next_ge, others, here⟩ :=
    markFirstPage_counted covers counted offset (none_.trans_le inside) fun i least less now => by
      have free := fresh _ (covers.inside _ (none_.trans_le inside)) i
        (Ranges.of_first_page positive ending some_ least less)
      rw [atFirst] at free
      exact free now
  have page_le : from_ ⌈/⌉ ctx.blockSize * ctx.blockSize / ctx.page.bytes ≤ next ∧
      next ≤ from_ ⌈/⌉ ctx.blockSize * ctx.blockSize / ctx.page.bytes + 1 := by
    rcases here with ⟨same, _⟩ | ⟨same, _⟩ <;> omega
  have lastNew : ctx.Ranges n from_ to_ (to_ ⌈/⌉ ctx.blockSize - 1) := by
    rw [ranges_iff positive some_]
    omega
  have fresh₁ : ctx.page.bytes ∣ to_ → ∀ k < ctx.pagesCount,
      to_ / ctx.page.bytes ≤ ctx.releasePageOffset + k →
        to_ ⌈/⌉ ctx.blockSize - 1 ∉ after₁ (ctx.releasePageOffset + k) := by
    intro aligned k counter after
    have behind := (Nat.le_div_iff_mul_le pages).mpr (first_page_le none_ aligned)
    rw [others _ (by omega)]
    exact fresh k counter _ lastNew
  obtain ⟨after₂, counted₂, end_⟩ := markLastBlock_counted covers counted₁ (by omega)
    (inside.trans limit_le) ending (offset.trans (Nat.div_le_div_right none_.le)) fresh₁
  -- a page before the covered ones is that of the first block, or one before it
  have early : ∀ k < ctx.pagesCount, ctx.releasePageOffset + k < next → ∀ i,
      i ∈ after₁ (ctx.releasePageOffset + k) ↔ i ∈ marked (ctx.releasePageOffset + k) ∨
        ctx.Ranges n from_ to_ i ∧
          i ∈ touching ctx.blockSize ctx.page.bytes (ctx.releasePageOffset + k) := by
    intro k _ less i
    by_cases page : ctx.releasePageOffset + k =
        from_ ⌈/⌉ ctx.blockSize * ctx.blockSize / ctx.page.bytes
    · rcases here with ⟨same, _⟩ | ⟨_, exact_⟩
      · omega
      · rw [page, exact_, Ranges.on_first_page positive ending some_]
    · rw [others _ page]
      exact (or_iff_left fun both => both.1.not_touching positive some_ (by omega) both.2).symm
  rw [next_eq]
  refine ⟨_, counted₂.setPages (offset.trans page_le.1), ?_⟩
  intro k counter i
  split_ifs with covered
  · have before : ctx.page.bytes ∣ to_ ∧ (ctx.releasePageOffset + k) * ctx.page.bytes < to_ ∨
        to_ ⌈/⌉ ctx.blockSize = n := by
      rcases end_ with ⟨stop, aligned, _⟩ | ⟨_, last, _⟩
      · exact Or.inl ⟨aligned, stop ▸ covered.2⟩
      · exact Or.inr last
    have after := next_ge.trans (Nat.mul_le_mul_right ctx.page.bytes covered.1)
    constructor
    · exact fun touches => Or.inr ⟨.of_touching positive some_ after before touches, touches⟩
    · rintro (old | ⟨_, touches⟩)
      · exact (counted.pages k counter).1 old
      · exact touches
  · rcases end_ with ⟨stop, aligned, inner, exact_⟩ | ⟨stop, last, same⟩
    · rw [stop] at covered
      rw [exact_ _ (Nat.le_add_right _ _)]
      have behind := (Nat.le_div_iff_mul_le pages).mpr (first_page_le none_ aligned)
      by_cases less : ctx.releasePageOffset + k < next
      · rw [early k counter less, or_assoc]
        apply or_congr_right
        exact or_iff_left_of_imp fun ⟨_, after, _⟩ => by omega
      · have after : to_ / ctx.page.bytes ≤ ctx.releasePageOffset + k := by
          by_contra before
          have upTo := (Nat.le_div_iff_mul_le pages).mp (Nat.lt_of_not_le before)
          rw [Nat.succ_mul] at upTo
          exact covered ⟨by omega, by omega⟩
        rw [others _ (by omega)]
        apply or_congr_right
        constructor
        · rintro ⟨rfl, _, touches⟩
          exact ⟨lastNew, touches⟩
        · rintro ⟨is, touches⟩
          exact ⟨is.eq_last positive aligned inner some_ after touches, after, touches⟩
    · rw [stop] at covered
      have start := starts k counter
      have less : ctx.releasePageOffset + k < next := by
        by_contra late
        exact covered ⟨by omega, start⟩
      rw [same]
      exact early k counter less i

end Range

end PageReleaseContext

end Scudo.Primary
