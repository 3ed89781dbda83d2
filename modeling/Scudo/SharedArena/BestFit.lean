import Mathlib.Data.Set.Insert
import Scudo.SharedArena.System

/-!
`retrieve` as a best-fit search. The free list is any list of blocks in the order of their
addresses, whatever is handed out and whether or not neighbours touch.
-/

namespace Scudo.SharedArena
open Scudo.Lib

/-- The pages of all blocks of a list. -/
def pagesOf (blocks : List Span) : Set Nat := {p | ∃ b ∈ blocks, b.has p = true}

/-- Taking the tail of one block leaves all other free pages. -/
theorem pagesOf_takeTail {left right : List Span} {b : Span} {need : Nat}
    (ordered : Ordered (left ++ b :: right)) (large : need ≤ b.len) :
    pagesOf (left ++ Extents.frontOf b need ++ right) =
      pagesOf (left ++ b :: right) \ pagesOf [Extents.tailOf b need] := by
  obtain ⟨_, rightOrdered, across⟩ := List.pairwise_append.mp ordered
  have after := (List.pairwise_cons.mp rightOrdered).1
  have outside : ∀ c ∈ left ++ right, ∀ p, c.has p = true →
      (Extents.tailOf b need).has p = false := by
    intro c member p inside
    have apart : c.stop ≤ b.start ∨ b.stop ≤ c.start := by
      rcases List.mem_append.mp member with before | behind
      · exact Or.inl (across c before b (by simp))
      · exact Or.inr (after c behind)
    rw [Span.has_iff] at inside
    rw [Bool.eq_false_iff, ne_eq, Span.has_iff]
    unfold Extents.tailOf Span.stop at *
    simp only at *
    omega
  have front : ∀ p, (∃ c ∈ Extents.frontOf b need, c.has p = true) ↔
      b.has p = true ∧ (Extents.tailOf b need).has p = false := by
    intro p
    rw [Bool.eq_false_iff, ne_eq, Span.has_iff, Span.has_iff]
    by_cases whole : b.len = need
    · simp only [Extents.frontOf, if_pos whole, Extents.tailOf, Span.stop, List.not_mem_nil,
        false_and, exists_false, false_iff]
      omega
    · simp only [Extents.frontOf, if_neg whole, List.mem_singleton, exists_eq_left, Span.has_iff,
        Extents.tailOf, Span.stop]
      omega
  ext p
  simp only [pagesOf, Set.mem_ofPred_eq, Set.mem_sdiff, List.mem_singleton, exists_eq_left,
    Bool.not_eq_true]
  constructor
  · rintro ⟨c, member, inside⟩
    rw [List.append_assoc, List.mem_append, List.mem_append] at member
    rcases member with before | middle | behind
    · exact ⟨⟨c, by simp [before], inside⟩, outside c (by simp [before]) p inside⟩
    · obtain ⟨whole, apart⟩ := (front p).mp ⟨c, middle, inside⟩
      exact ⟨⟨b, by simp, whole⟩, apart⟩
    · exact ⟨⟨c, by simp [behind], inside⟩, outside c (by simp [behind]) p inside⟩
  · rintro ⟨⟨c, member, inside⟩, apart⟩
    rcases mem_middle_cases member with rfl | old
    · obtain ⟨d, middle, within⟩ := (front p).mpr ⟨inside, apart⟩
      exact ⟨d, by simp [middle], within⟩
    · refine ⟨c, ?_, inside⟩
      rcases List.mem_append.mp old with before | behind
      · simp [before]
      · simp [behind]

/-- One of the values that `retrieve` reads for the head of the ring shows a free slot, or the
log is not used. -/
def LogRoom (env : EnvCache) (arena : Arena) (loads : HeadLoads) : Prop :=
  env.allowNoKernel = true ∨ arena.logFull arena.logHeadCache = false ∨
    arena.logFull loads.first = false ∨ arena.logFull loads.second = false

instance (env : EnvCache) (arena : Arena) (loads : HeadLoads) :
    Decidable (LogRoom env arena loads) := inferInstanceAs (Decidable (_ ∨ _))

section Room

variable {env : EnvCache} {arena : Arena} {loads : HeadLoads}

/-- A ring without slots is full at every head. -/
theorem logFull_of_no_capacity (none : arena.logCapacityCache = 0) (head : Nat) :
    arena.logFull head = true := by
  simp [Arena.logFull, none]

theorem refreshLogHead_of_room
    (room : arena.logFull arena.logHeadCache = false ∨ arena.logFull loads.first = false ∨
      arena.logFull loads.second = false) : (arena.refreshLogHead loads).1 = true := by
  unfold Arena.refreshLogHead
  by_cases cached : arena.logFull arena.logHeadCache = true
  · rw [if_pos cached]
    by_cases first : arena.logFull loads.first = true
    · have second : arena.logFull loads.second = false := by simpa [cached, first] using room
      have fullFirst : Arena.logFull { arena with logHeadCache := loads.first } loads.first =
          true := first
      have freeSecond : Arena.logFull { arena with logHeadCache := loads.second } loads.second =
          false := second
      simp [fullFirst, freeSecond]
    · have freeFirst : Arena.logFull { arena with logHeadCache := loads.first } loads.first =
          false := Bool.eq_false_iff.mpr first
      simp [freeFirst]
  · rw [if_neg cached]

/-- With room in the ring every nonempty run of whole pages is logged. -/
theorem LogRoom.append_ok (room : LogRoom env arena loads) {page : PageSize}
    (op : SharedArenaLogOp) (srcCpu startPage flags : Nat) {commitSize : Nat}
    (nonempty : commitSize ≠ 0) (aligned : isAligned commitSize page.bytes = true) :
    (arena.appendLogPagesLocked env page loads op srcCpu startPage commitSize flags).ok = true := by
  unfold Arena.appendLogPagesLocked
  rcases room with noKernel | room
  · rw [if_pos noKernel]
  · have capacity : arena.logCapacityCache ≠ 0 := by
      intro none
      simp [logFull_of_no_capacity none] at room
    have refreshed := refreshLogHead_of_room room
    by_cases noKernel : env.allowNoKernel = true
    · rw [if_pos noKernel]
    · rw [if_neg noKernel, if_neg (by simp [nonempty, aligned]), if_neg capacity]
      generalize arena.refreshLogHead loads = refresh at refreshed ⊢
      obtain ⟨ok, arena'⟩ := refresh
      obtain rfl : ok = true := refreshed
      rfl

end Room

/-- Headers that keep the alignment of the user part always fit in front of it. -/
theorem not_misfit {size alignment headersSize : Nat}
    (request : Request size alignment headersSize) (multiple : alignment ∣ headersSize) :
    ¬Misfit size alignment headersSize := by
  obtain ⟨exactSize, above, _⟩ := request.pages
  have pages := request.pages_lt
  have small := request.alignment_lt
  have fits : headersSize ≤ Arena.neededSize PageSize.small size headersSize - size := by omega
  unfold Misfit
  rw [roundDown_eq request.power (by omega) (by omega)]
  exact Nat.not_lt.mpr (le_roundDownSlow multiple fits)

section Search

variable {env : EnvCache} {arena : Arena} {core : Nat} {m : ArenaMemory} {free : List Span}
  {loads : HeadLoads} {size alignment headersSize : Nat}

theorem FreeListAt.countRetrieval (list : FreeListAt m free) (allocSize : Nat) :
    FreeListAt (m.countRetrieval allocSize) free :=
  ⟨list.head, list.count, list.linked, list.size, list.magic⟩

theorem LogRoom.appendAlloc_ok (room : LogRoom env arena loads) (core : Nat) {x : Span}
    (positive : 0 < x.len) :
    (arena.appendLogLocked env PageSize.small loads .alloc (pageAddr core x.start) (x.len * 4096)
      0).ok = true := by
  have aligned : isAligned (x.len * 4096) PageSize.small.bytes = true :=
    (isAligned_iff PageSize.small.power).mpr (Nat.dvd_mul_left 4096 x.len)
  unfold Arena.appendLogLocked
  rw [if_neg (by simp [isAligned_pageAddr])]
  exact room.append_ok _ _ _ _ (by omega) aligned

/-- With room in the ring the pages that were taken are handed out. -/
theorem retrieve_handed (initialized : arena.initialized = true) (placed : arena.At core)
    (request : Request size alignment headersSize) (room : LogRoom env arena loads)
    (fits : ¬Misfit size alignment headersSize) {off : Nat} {taken : Taken} {x : Span}
    (find : m.findBestFit env (pagesFor size headersSize) = some (off, m))
    (take : arena.takePages PageSize.small m off (pagesFor size headersSize) = some taken)
    (base : taken.allocBase = pageAddr core x.start) (len : x.len = pagesFor size headersSize)
    (inside : x.start + x.len ≤ arenaPages) :
    ∃ result, arena.retrieve env PageSize.small m loads size alignment headersSize = some result ∧
      result.out = some (handoutOf core x size alignment headersSize) ∧
      result.mem = taken.mem.countRetrieval (x.len * 4096) := by
  have logged := room.appendAlloc_ok core (len ▸ request.pages_pos)
  rw [retrieve_taken initialized placed request loads find take base len inside fits]
  simp only [logged, Bool.true_eq_false, if_false]
  exact ⟨_, rfl, rfl, rfl⟩

/-- The scan's best block is handed out by its tail. -/
theorem retrieve_of_fit (initialized : arena.initialized = true) (placed : arena.At core)
    (request : Request size alignment headersSize) (room : LogRoom env arena loads)
    (fits : ¬Misfit size alignment headersSize) {left right : List Span} {best : Span}
    (list : FreeListAt m (left ++ best :: right)) (blocks : Fits arenaPages (left ++ best :: right))
    (ordered : Ordered (left ++ best :: right)) (large : pagesFor size headersSize ≤ best.len)
    (find : m.findBestFit env (pagesFor size headersSize) = some (best.start, m)) :
    ∃ result, arena.retrieve env PageSize.small m loads size alignment headersSize = some result ∧
      result.out = some (handoutOf core (Extents.tailOf best (pagesFor size headersSize)) size
        alignment headersSize) ∧
      FreeListAt result.mem
        (left ++ Extents.frontOf best (pagesFor size headersSize) ++ right) ∧
      result.mem.hdr.bumpOffsetInPages = m.hdr.bumpOffsetInPages := by
  have stop : best.start + best.len ≤ arenaPages := blocks.stop_le best (by simp)
  have take := list.takeFree_eq blocks placed large
  have tail : (Extents.tailOf best (pagesFor size headersSize)).start =
      best.start + (best.len - pagesFor size headersSize) := by
    unfold Extents.tailOf Span.stop
    simp only
    omega
  have base : (arena.takeFree PageSize.small m best.start (pagesFor size headersSize)).allocBase =
      pageAddr core (Extents.tailOf best (pagesFor size headersSize)).start := by
    rw [take, tail]
    split_ifs with whole
    · rw [whole, Nat.sub_self, Nat.add_zero]
    · rfl
  have taken : arena.takePages PageSize.small m best.start (pagesFor size headersSize) =
      some (arena.takeFree PageSize.small m best.start (pagesFor size headersSize)) := by
    have above := le_pageAddr core (Extents.tailOf best (pagesFor size headersSize)).start
    unfold Arena.takePages
    rw [if_neg (by rw [base]; omega)]
  have inside : (Extents.tailOf best (pagesFor size headersSize)).start +
      (Extents.tailOf best (pagesFor size headersSize)).len ≤ arenaPages := by
    rw [tail]
    simp only [Extents.tailOf]
    omega
  obtain ⟨result, run, out, mem⟩ := retrieve_handed initialized placed request room fits find taken
    base rfl inside
  refine ⟨result, run, out, ?_, ?_⟩
  · rw [mem, take]
    apply FreeListAt.countRetrieval
    by_cases whole : best.len = pagesFor size headersSize
    · simpa [Extents.frontOf, whole] using list.unlinkBlock blocks ordered
    · simpa [Extents.frontOf, whole] using
        list.shorten blocks ordered (best.len - pagesFor size headersSize)
  · rw [mem, take]
    split_ifs with whole
    · simp only [ArenaMemory.countRetrieval, ArenaMemory.unlinkBlock_hdr]
    · rfl

/-- Without a block that fits the bump pointer decides. -/
theorem retrieve_of_bump (initialized : arena.initialized = true) (placed : arena.At core)
    (request : Request size alignment headersSize) (room : LogRoom env arena loads)
    (fits : ¬Misfit size alignment headersSize) (list : FreeListAt m free)
    (total : m.hdr.totalDataPages = arenaPages) (bump : m.hdr.bumpOffsetInPages ≤ arenaPages)
    (find : m.findBestFit env (pagesFor size headersSize) = some (kFreeListEnd, m)) :
    ∃ result, arena.retrieve env PageSize.small m loads size alignment headersSize = some result ∧
      FreeListAt result.mem free ∧
      (m.hdr.bumpOffsetInPages + pagesFor size headersSize ≤ arenaPages →
        result.out = some (handoutOf core
          ⟨m.hdr.bumpOffsetInPages, pagesFor size headersSize⟩ size alignment headersSize) ∧
        result.mem.hdr.bumpOffsetInPages =
          m.hdr.bumpOffsetInPages + pagesFor size headersSize) ∧
      (arenaPages < m.hdr.bumpOffsetInPages + pagesFor size headersSize →
        result.out = none ∧ result.mem = m) := by
  have bounded := request.pages_lt
  have pages := arenaPages_eq
  have untouched : arena.takeFree PageSize.small m kFreeListEnd (pagesFor size headersSize) =
      ⟨m, 0⟩ := if_neg (not_not_intro rfl)
  have sum : wadd 32 m.hdr.bumpOffsetInPages (pagesFor size headersSize) =
      m.hdr.bumpOffsetInPages + pagesFor size headersSize := wadd_eq (by omega)
  by_cases above : m.hdr.bumpOffsetInPages + pagesFor size headersSize ≤ arenaPages
  · have taken : arena.takePages PageSize.small m kFreeListEnd (pagesFor size headersSize) =
        some ⟨m.setBump (m.hdr.bumpOffsetInPages + pagesFor size headersSize),
          pageAddr core m.hdr.bumpOffsetInPages⟩ := by
      unfold Arena.takePages Arena.takeBump
      rw [untouched, if_pos rfl]
      simp only [sum, total]
      rw [if_neg (by omega), placed.pageOffToAddr bump]
    obtain ⟨result, run, out, mem⟩ :=
      retrieve_handed (x := ⟨m.hdr.bumpOffsetInPages, pagesFor size headersSize⟩) initialized placed
        request room fits find taken rfl rfl above
    refine ⟨result, run, ?_, fun _ => ⟨out, ?_⟩, fun short => absurd above (by omega)⟩
    · rw [mem]
      exact ⟨list.head, list.count, list.linked, list.size, list.magic⟩
    · rw [mem]
      rfl
  · have none : arena.takePages PageSize.small m kFreeListEnd (pagesFor size headersSize) = none := by
      unfold Arena.takePages Arena.takeBump
      rw [untouched, if_pos rfl]
      simp only [sum, total]
      rw [if_pos (by omega)]
    refine ⟨⟨Option.none, m, arena, Option.none⟩, ?_, list, fun room => absurd room above,
      fun _ => ⟨rfl, rfl⟩⟩
    unfold Arena.retrieve
    rw [if_neg (by simp [initialized]),
      show Arena.neededPages PageSize.small size headersSize = pagesFor size headersSize from rfl]
    simp only [find, none]

end Search

/-- The best fit is the lowest of the smallest blocks that fit. -/
theorem BestIn.lowest {need : Nat} {left right : List Span} {best : Span} {total : Nat}
    (blocks : Fits total (left ++ best :: right)) (ordered : Ordered (left ++ best :: right))
    (before : ∀ c ∈ left, c.len < need ∨ best.len < c.len)
    (after : ∀ c ∈ right, c.len < need ∨ best.len ≤ c.len) {c : Span}
    (member : c ∈ left ++ best :: right) (fits : need ≤ c.len) :
    best.len < c.len ∨ best.len = c.len ∧ best.start ≤ c.start := by
  have rising := blocks.increasing ordered
  rw [starts_append, starts_cons] at rising
  have behind := (List.pairwise_cons.mp (List.pairwise_append.mp rising).2.1).1
  rcases List.mem_append.mp member with inLeft | member
  · have := before c inLeft
    omega
  · rcases List.mem_cons.mp member with rfl | inRight
    · exact Or.inr ⟨rfl, le_rfl⟩
    · have := after c inRight
      have := behind c.start (start_mem inRight)
      omega

/-- `retrieve` succeeds exactly when some usable block has the needed pages or the bump pointer
has room for them. If some block does, the smallest such block, at the lowest address among equals,
gives its last pages, and all other free pages and the bump pointer stay; otherwise the free list
stays and the bump pointer moves, or nothing changes. -/
theorem retrieve_best_fit (env : EnvCache) (arena : Arena) (core : Nat) (m : ArenaMemory)
    (free : List Span) (loads : HeadLoads) (size alignment headersSize : Nat)
    (initialized : arena.initialized = true) (placed : arena.At core)
    (total : m.hdr.totalDataPages = arenaPages) (list : FreeListAt m free)
    (blocks : Fits arenaPages free) (ordered : Ordered free)
    (bump : m.hdr.bumpOffsetInPages ≤ arenaPages) (size_lt : size < 2 ^ 40)
    (power : isPowerOfTwo alignment = true) (alignment_le : alignment ≤ 16)
    (headers : 16 ∣ headersSize) (headers_pos : 0 < headersSize) (headers_lt : headersSize < 2 ^ 40)
    (room : LogRoom env arena loads) :
    let need := Arena.neededPages PageSize.small size headersSize
    ∃ result, arena.retrieve env PageSize.small m loads size alignment headersSize = some result ∧
      (result.out.isSome = true ↔ (∃ b ∈ usableFree env free, need ≤ b.len) ∨
        m.hdr.bumpOffsetInPages + need ≤ m.hdr.totalDataPages) ∧
      ((∃ b ∈ usableFree env free, need ≤ b.len) →
        ∃ left best right, free = left ++ best :: right ∧ need ≤ best.len ∧
          (∀ c ∈ free, need ≤ c.len →
            best.len < c.len ∨ best.len = c.len ∧ best.start ≤ c.start) ∧
          result.out = some (handoutOf core (Extents.tailOf best need) size alignment headersSize) ∧
          FreeListAt result.mem (left ++ Extents.frontOf best need ++ right) ∧
          pagesOf (left ++ Extents.frontOf best need ++ right) =
            pagesOf free \ pagesOf [Extents.tailOf best need] ∧
          result.mem.hdr.bumpOffsetInPages = m.hdr.bumpOffsetInPages) ∧
      ((∀ b ∈ usableFree env free, b.len < need) →
        FreeListAt result.mem free ∧
          (m.hdr.bumpOffsetInPages + need ≤ m.hdr.totalDataPages →
            result.out = some (handoutOf core ⟨m.hdr.bumpOffsetInPages, need⟩ size alignment
              headersSize) ∧
            result.mem.hdr.bumpOffsetInPages = m.hdr.bumpOffsetInPages + need) ∧
          (m.hdr.totalDataPages < m.hdr.bumpOffsetInPages + need → result.mem = m)) := by
  intro need
  have count : need = pagesFor size headersSize := rfl
  have request : Request size alignment headersSize :=
    ⟨by omega, power, by omega, headers_pos, headers_lt⟩
  have multiple : alignment ∣ headersSize :=
    (isPowerOfTwo_dvd power (by decide : isPowerOfTwo 16 = true) alignment_le).trans headers
  have fits := not_misfit request multiple
  obtain ⟨off, pages, find, best⟩ := list.findBestFit (total ▸ blocks) ordered env need
  rcases best with ⟨rfl, _, none⟩ | ⟨left, best, right, shape, rfl, _, large, before, after⟩
  · obtain ⟨result, run, kept, bumped, short⟩ :=
      retrieve_of_bump initialized placed request room fits list total bump find
    rw [← total] at bumped short
    have absent : ¬∃ b ∈ usableFree env free, need ≤ b.len := by
      rintro ⟨b, member, large⟩
      have tooSmall := none b member
      omega
    refine ⟨result, run, ?_, fun some => absurd some absent,
      fun _ => ⟨kept, bumped, fun full => (short full).2⟩⟩
    by_cases above : m.hdr.bumpOffsetInPages + need ≤ m.hdr.totalDataPages
    · simp [(bumped above).1, above]
    · have failed := (short (by omega)).1
      simp [failed, above, absent]
  · have found : best ∈ usableFree env free := by simp [shape]
    have enabled := (mem_usableFree.mp found).1
    have all : usableFree env free = free := by simp [usableFree, enabled]
    have split : free = left ++ best :: right := by rw [← shape, all]
    subst split
    obtain ⟨result, run, out, rest, still⟩ :=
      retrieve_of_fit initialized placed request room fits list blocks ordered large find
    refine ⟨result, run, ?_, fun _ => ⟨left, best, right, rfl, large,
      fun c member => BestIn.lowest blocks ordered before after member, out, rest,
      pagesOf_takeTail ordered large, still⟩, fun none => absurd (none best found) (by omega)⟩
    rw [out]
    exact ⟨fun _ => Or.inl ⟨best, found, large⟩, fun _ => rfl⟩

/-- Two free blocks below a bump pointer of 8, of one page and of three. -/
def twoBlocks : ArenaMemory where
  hdr := { initialHeader PageSize.small with
    bumpOffsetInPages := 8, freeListHeadPageOff := 2, freeCount := 2 }
  prevPageOff := fun off => if off = 5 then 2 else kFreeListEnd
  nextPageOff := fun off => if off = 2 then 5 else kFreeListEnd
  sizeInPages := fun off => if off = 5 then 3 else 1
  magic := fun _ => kFreeBlockMagic

theorem twoBlocks_list : FreeListAt twoBlocks [⟨2, 1⟩, ⟨5, 3⟩] := by
  refine ⟨rfl, rfl, ?_, ?_, ?_⟩
  · simp [Linked, twoBlocks]
  · simp [twoBlocks]
  · simp [twoBlocks]

theorem twoBlocks_fits : Fits arenaPages [⟨2, 1⟩, ⟨5, 3⟩] := by
  refine ⟨arenaPages_small, ?_, ?_⟩
  · decide
  · rw [arenaPages_eq]
    decide

/-- A request of two pages takes them from the run of three. -/
theorem retrieve_best_fit_twoBlocks :
    ∃ result, (World.freshObject 0).retrieve ⟨false, false⟩ PageSize.small twoBlocks ⟨0, 0⟩ 6000
        16 80 = some result ∧ result.out.isSome = true := by
  obtain ⟨result, run, success, _⟩ := retrieve_best_fit ⟨false, false⟩ (World.freshObject 0) 0
    twoBlocks [⟨2, 1⟩, ⟨5, 3⟩] ⟨0, 0⟩ 6000 16 80 (by decide) ⟨by decide, rfl, rfl⟩ rfl
    twoBlocks_list twoBlocks_fits (by unfold Ordered; decide) (by decide) (by decide) (by decide)
    (by decide) (by decide) (by decide) (by decide) (by decide)
  refine ⟨result, run, success.mpr (Or.inl ⟨⟨5, 3⟩, ?_, ?_⟩)⟩
  · decide
  · decide

end Scudo.SharedArena
