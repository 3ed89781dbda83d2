import Scudo.SharedArena.StoreSpec

/-!
Taking pages in `retrieve`: the scan and the two ways to take pages refine
`Extents.Takes`, and the undo for a full log ring restores the memory word for word.
-/

namespace Scudo.SharedArena
open Scudo.Lib

namespace ArenaMemory

attribute [local simp] setPrev setNext setSize setMagic setHead setCount getFreeBlock
  Function.update_apply

section Unlink

variable (m : ArenaMemory) (off y : Nat)

theorem unlinkBlock_next : (m.unlinkBlock off).nextPageOff y =
    if m.prevPageOff off ≠ kFreeListEnd ∧ y = m.prevPageOff off then m.nextPageOff off
    else m.nextPageOff y := by
  simp only [unlinkBlock]
  split_ifs <;> simp_all

theorem unlinkBlock_prev : (m.unlinkBlock off).prevPageOff y =
    if m.nextPageOff off ≠ kFreeListEnd ∧ y = m.nextPageOff off then m.prevPageOff off
    else m.prevPageOff y := by
  simp only [unlinkBlock]
  split_ifs <;> simp_all

theorem unlinkBlock_size : (m.unlinkBlock off).sizeInPages y = m.sizeInPages y := by
  simp only [unlinkBlock]
  split_ifs <;> simp_all

theorem unlinkBlock_magic : (m.unlinkBlock off).magic y = if y = off then 0 else m.magic y := by
  simp only [unlinkBlock]
  split_ifs <;> simp_all

theorem unlinkBlock_hdr : (m.unlinkBlock off).hdr =
    { m.hdr with
      freeListHeadPageOff :=
        if m.prevPageOff off ≠ kFreeListEnd then m.hdr.freeListHeadPageOff else m.nextPageOff off
      freeCount := wsub 32 m.hdr.freeCount 1 } := by
  simp only [unlinkBlock]
  split_ifs <;> simp_all

theorem relinkBlock_next : (m.relinkBlock off).nextPageOff y =
    if m.prevPageOff off ≠ kFreeListEnd ∧ y = m.prevPageOff off then off
    else m.nextPageOff y := by
  simp only [relinkBlock]
  split_ifs <;> simp_all

theorem relinkBlock_prev : (m.relinkBlock off).prevPageOff y =
    if m.nextPageOff off ≠ kFreeListEnd ∧ y = m.nextPageOff off then off
    else m.prevPageOff y := by
  simp only [relinkBlock]
  split_ifs <;> simp_all

theorem relinkBlock_size : (m.relinkBlock off).sizeInPages y = m.sizeInPages y := by
  simp only [relinkBlock]
  split_ifs <;> simp_all

theorem relinkBlock_magic :
    (m.relinkBlock off).magic y = if y = off then kFreeBlockMagic else m.magic y := by
  simp only [relinkBlock]
  split_ifs <;> simp_all

theorem relinkBlock_hdr : (m.relinkBlock off).hdr =
    { m.hdr with
      freeListHeadPageOff :=
        if m.prevPageOff off ≠ kFreeListEnd then m.hdr.freeListHeadPageOff else off
      freeCount := wadd 32 m.hdr.freeCount 1 } := by
  simp only [relinkBlock]
  split_ifs <;> simp_all

end Unlink

end ArenaMemory

section Take

variable {m : ArenaMemory} {left right : List Span} {b : Span} {total : Nat}

theorem Fits.fresh (fits : Fits total (left ++ b :: right)) (ordered : Ordered (left ++ b :: right)) :
    b.start ∉ starts left ++ starts right := by
  have nodup := fits.nodup ordered
  rw [starts_append, starts_cons] at nodup
  exact (List.nodup_cons.mp (List.nodup_middle.mp nodup)).1

theorem FreeListAt.next_ne (list : FreeListAt m (left ++ b :: right))
    (fits : Fits total (left ++ b :: right)) (ordered : Ordered (left ++ b :: right)) :
    b.start ≠ m.nextPageOff b.start := by
  rw [list.next_eq]
  rcases headD_cases (starts right) kFreeListEnd with none | some
  · rw [none]
    exact fits.start_ne (by simp)
  · exact fun same => fits.fresh ordered (List.mem_append_right _ (same ▸ some))

theorem FreeListAt.prev_ne (list : FreeListAt m (left ++ b :: right))
    (fits : Fits total (left ++ b :: right)) (ordered : Ordered (left ++ b :: right)) :
    b.start ≠ m.prevPageOff b.start := by
  rw [list.prev_eq]
  rcases getLastD_cases (starts left) kFreeListEnd with none | some
  · rw [none]
    exact fits.start_ne (by simp)
  · exact fun same => fits.fresh ordered (List.mem_append_left _ (same ▸ some))

/-- Unlinking takes one block out of the represented list. -/
theorem FreeListAt.unlinkBlock (list : FreeListAt m (left ++ b :: right))
    (fits : Fits total (left ++ b :: right)) (ordered : Ordered (left ++ b :: right)) :
    FreeListAt (m.unlinkBlock b.start) (left ++ right) := by
  have nodup := fits.nodup ordered
  have proper := fits.proper
  have linked := list.linked
  have next := list.next_eq
  have prev := list.prev_eq
  rw [starts_append, starts_cons] at nodup proper linked
  have middle := List.nodup_middle.mp nodup
  have properOld : ∀ off ∈ starts left ++ starts right, off ≠ kFreeListEnd :=
    fun off member => proper off (by simp at member ⊢; tauto)
  have others : ∀ c ∈ left ++ right, c ∈ left ++ b :: right := by
    intro c member
    simp at member ⊢
    tauto
  constructor
  · rw [ArenaMemory.unlinkBlock_hdr, prev, next]
    have head := list.head
    rcases List.eq_nil_or_concat' left with rfl | ⟨front, p, rfl⟩
    · simp
    · have ne : p.start ≠ kFreeListEnd := properOld _ (by simp)
      have nonempty : front ++ [p] ≠ [] := by simp
      rw [headD_starts_append nonempty] at head ⊢
      rw [getLastD_starts_concat, if_pos ne]
      exact head
  · rw [ArenaMemory.unlinkBlock_hdr]
    have count := list.count
    have bound := fits.length_le ordered
    have small := fits.total_lt
    simp only [List.length_append, List.length_cons] at count bound ⊢
    unfold kFreeListEnd at small
    rw [count, wsub_eq (by omega) (by omega)]
    omega
  · rw [starts_append]
    apply linked.erase
    apply Reseamed.of_writes middle.of_cons properOld
    · intro off member same
      rw [ArenaMemory.unlinkBlock_next, prev, if_pos ⟨same ▸ properOld off member, same⟩, next]
    · intro off member same
      rw [ArenaMemory.unlinkBlock_prev, next, if_pos ⟨same ▸ properOld off member, same⟩, prev]
    · intro off _ other
      rw [ArenaMemory.unlinkBlock_next, prev, if_neg (fun both => other both.2)]
    · intro off _ other
      rw [ArenaMemory.unlinkBlock_prev, next, if_neg (fun both => other both.2)]
  · intro c member
    rw [ArenaMemory.unlinkBlock_size]
    exact list.size c (others c member)
  · intro c member
    have notB : c.start ≠ b.start := by
      intro same
      have inStarts := start_mem member
      rw [starts_append, same] at inStarts
      exact (List.nodup_cons.mp middle).1 inStarts
    rw [ArenaMemory.unlinkBlock_magic, if_neg notB]
    exact list.magic c (others c member)

/-- The links of a block's neighbours point back at it. -/
theorem FreeListAt.prev_next (list : FreeListAt m (left ++ b :: right))
    (proper : m.prevPageOff b.start ≠ kFreeListEnd) :
    m.nextPageOff (m.prevPageOff b.start) = b.start := by
  rw [list.prev_eq] at proper ⊢
  rcases List.eq_nil_or_concat' left with rfl | ⟨front, p, rfl⟩
  · exact (proper rfl).elim
  · rw [getLastD_starts_concat]
    have split : FreeListAt m (front ++ p :: b :: right) := by simpa using list
    simpa using split.next_eq

theorem FreeListAt.next_prev (list : FreeListAt m (left ++ b :: right))
    (proper : m.nextPageOff b.start ≠ kFreeListEnd) :
    m.prevPageOff (m.nextPageOff b.start) = b.start := by
  rw [list.next_eq] at proper ⊢
  rcases right with - | ⟨n, rest⟩
  · exact (proper rfl).elim
  · have split : FreeListAt m ((left ++ [b]) ++ n :: rest) := by simpa using list
    simpa using split.prev_eq

theorem FreeListAt.head_eq (list : FreeListAt m (left ++ b :: right))
    (first : m.prevPageOff b.start = kFreeListEnd) (proper : ∀ c ∈ left, c.start ≠ kFreeListEnd) :
    m.hdr.freeListHeadPageOff = b.start := by
  have head := list.head
  rw [list.prev_eq] at first
  rcases List.eq_nil_or_concat' left with rfl | ⟨front, p, rfl⟩
  · simpa using head
  · rw [getLastD_starts_concat] at first
    exact (proper p (by simp) first).elim

/-- Linking a block back in undoes its unlinking, word for word. -/
theorem FreeListAt.relink_unlink (list : FreeListAt m (left ++ b :: right))
    (fits : Fits total (left ++ b :: right)) (ordered : Ordered (left ++ b :: right)) :
    (m.unlinkBlock b.start).relinkBlock b.start = m := by
  have ownNext := list.next_ne fits ordered
  have ownPrev := list.prev_ne fits ordered
  have keptPrev : (m.unlinkBlock b.start).prevPageOff b.start = m.prevPageOff b.start := by
    rw [ArenaMemory.unlinkBlock_prev, if_neg (fun both => ownNext both.2)]
  have keptNext : (m.unlinkBlock b.start).nextPageOff b.start = m.nextPageOff b.start := by
    rw [ArenaMemory.unlinkBlock_next, if_neg (fun both => ownPrev both.2)]
  apply ArenaMemory.ext
  · have count := list.count
    have bound := fits.length_le ordered
    have small := fits.total_lt
    simp only [List.length_append, List.length_cons] at count bound
    unfold kFreeListEnd at small
    have restored : wadd 32 (wsub 32 m.hdr.freeCount 1) 1 = m.hdr.freeCount := by
      rw [wsub_eq (by omega) (by omega), wadd_eq (by omega)]
      omega
    rw [ArenaMemory.relinkBlock_hdr, ArenaMemory.unlinkBlock_hdr, keptPrev]
    simp only [restored]
    by_cases first : m.prevPageOff b.start = kFreeListEnd
    · rw [if_neg (not_not_intro first), ← list.head_eq first
        (fun c member => fits.start_ne (List.mem_append_left _ member))]
    · rw [if_pos first, if_pos first]
  · funext y
    rw [ArenaMemory.relinkBlock_prev, keptNext, ArenaMemory.unlinkBlock_prev]
    by_cases next : m.nextPageOff b.start ≠ kFreeListEnd ∧ y = m.nextPageOff b.start
    · rw [if_pos next, next.2, list.next_prev next.1]
    · rw [if_neg next, if_neg next]
  · funext y
    rw [ArenaMemory.relinkBlock_next, keptPrev, ArenaMemory.unlinkBlock_next]
    by_cases prev : m.prevPageOff b.start ≠ kFreeListEnd ∧ y = m.prevPageOff b.start
    · rw [if_pos prev, prev.2, list.prev_next prev.1]
    · rw [if_neg prev, if_neg prev]
  · funext y
    rw [ArenaMemory.relinkBlock_size, ArenaMemory.unlinkBlock_size]
  · funext y
    rw [ArenaMemory.relinkBlock_magic, ArenaMemory.unlinkBlock_magic]
    by_cases own : y = b.start
    · rw [if_pos own, own, list.magic b (by simp)]
    · rw [if_neg own, if_neg own]

/-- Shortening a block keeps its front in the list. -/
theorem FreeListAt.shorten (list : FreeListAt m (left ++ b :: right))
    (fits : Fits total (left ++ b :: right)) (ordered : Ordered (left ++ b :: right)) (len : Nat) :
    FreeListAt (m.setSize b.start len) (left ++ ⟨b.start, len⟩ :: right) := by
  have middle := List.nodup_middle.mp (show (starts left ++ b.start :: starts right).Nodup by
    simpa using fits.nodup ordered)
  constructor
  · have head := list.head
    rcases left with - | ⟨first, rest⟩ <;> simpa [ArenaMemory.setSize] using head
  · simpa [ArenaMemory.setSize] using list.count
  · simpa [ArenaMemory.setSize] using list.linked
  · intro c member
    unfold ArenaMemory.setSize
    simp only [Function.update_apply]
    rcases mem_middle_cases member with rfl | old
    · rw [if_pos rfl]
    · rw [if_neg, list.size c (by simp at old ⊢; tauto)]
      intro same
      have inStarts := start_mem old
      rw [starts_append, same] at inStarts
      exact (List.nodup_cons.mp middle).1 inStarts
  · intro c member
    rcases mem_middle_cases member with rfl | old
    · exact list.magic b (by simp)
    · exact list.magic c (by simp at old ⊢; tauto)

end Take

theorem setSize_setSize (m : ArenaMemory) (off first second : Nat) :
    (m.setSize off first).setSize off second = m.setSize off second := by
  simp [ArenaMemory.setSize]

theorem setSize_self (m : ArenaMemory) (off : Nat) : m.setSize off (m.sizeInPages off) = m := by
  simp [ArenaMemory.setSize]

theorem setBump_setBump (m : ArenaMemory) (first second : Nat) :
    (m.setBump first).setBump second = m.setBump second := rfl

theorem setBump_self (m : ArenaMemory) : m.setBump m.hdr.bumpOffsetInPages = m := rfl

/-- The free list of this process can serve `need` pages. -/
def FreeFit (env : EnvCache) {capacity : Nat} (e : Extents capacity) (need : Nat) : Prop :=
  env.disableFreelist = false ∧ ∃ b ∈ e.free, need ≤ b.len

/-- `need` pages can be had from the free list or above the bump pointer. -/
def Available (env : EnvCache) {capacity : Nat} (e : Extents capacity) (need : Nat) : Prop :=
  FreeFit env e need ∨ e.bump + need ≤ capacity

section Find

variable {m : ArenaMemory} {capacity : Nat} {e : Extents capacity}

/-- The blocks that the scan of this process looks at. -/
def usableFree (env : EnvCache) (free : List Span) : List Span :=
  if env.disableFreelist then [] else free

theorem mem_usableFree {env : EnvCache} {free : List Span} {b : Span} :
    b ∈ usableFree env free ↔ env.disableFreelist = false ∧ b ∈ free := by
  unfold usableFree
  cases env.disableFreelist <;> simp

/-- Phase 1 leaves the memory alone and finds the best fit among the usable blocks. -/
theorem FreeListAt.findBestFit {free : List Span} (list : FreeListAt m free)
    (fits : Fits m.hdr.totalDataPages free) (ordered : Ordered free) (env : EnvCache)
    (need : Nat) :
    ∃ off pages, m.findBestFit env need = some (off, m) ∧
      BestIn need (usableFree env free) off pages := by
  unfold ArenaMemory.findBestFit
  by_cases scans : env.disableFreelist = false ∧ m.hdr.freeCount ≠ 0
  · have enough : free.length < m.walkFuel := by
      have count := fits.length_le ordered
      unfold ArenaMemory.walkFuel
      omega
    obtain ⟨off, pages, scan, best⟩ := list.bestFitScan_spec need fits m.walkFuel enough
    rw [if_pos scans, scan]
    refine ⟨off, pages, rfl, ?_⟩
    simpa [usableFree, scans.1] using best
  · rw [if_neg scans]
    have unused : usableFree env free = [] := by
      unfold usableFree
      cases enabled : env.disableFreelist with
      | true => rfl
      | false =>
        have empty : m.hdr.freeCount = 0 := by
          by_contra some
          exact scans ⟨enabled, some⟩
        rw [list.count] at empty
        simpa using empty
    refine ⟨kFreeListEnd, 0xFFFFFFFF, rfl, Or.inl ⟨rfl, rfl, ?_⟩⟩
    simp [unused]

/-- Phase 1 finds a block that fits whenever there is one. -/
theorem Represents.findBestFit (small : capacity < kFreeListEnd) (rep : Represents m e)
    (env : EnvCache) (need : Nat) :
    ∃ off, m.findBestFit env need = some (off, m) ∧
      ((off = kFreeListEnd ∧ ¬FreeFit env e need) ∨
        FreeFit env e need ∧
          ∃ left b right, e.free = left ++ b :: right ∧ off = b.start ∧ need ≤ b.len) := by
  have fits := fits_free small e
  obtain ⟨off, pages, find, best⟩ :=
    rep.free.findBestFit (rep.total ▸ fits) (ordered_of_gap e.sorted) env need
  refine ⟨off, find, ?_⟩
  rcases best with ⟨rfl, _, none⟩ | ⟨left, b, right, shape, start, _, large, _, _⟩
  · refine Or.inl ⟨rfl, ?_⟩
    rintro ⟨enabled, b, member, large⟩
    have tooSmall := none b (mem_usableFree.mpr ⟨enabled, member⟩)
    omega
  · have member : b ∈ usableFree env e.free := by simp [shape]
    obtain ⟨enabled, inFree⟩ := mem_usableFree.mp member
    have all : usableFree env e.free = e.free := by simp [usableFree, enabled]
    exact Or.inr ⟨⟨enabled, b, inFree, large⟩, left, b, right, all ▸ shape, start, large⟩

end Find

/-- The data pages of one arena with 4 KB pages. -/
abbrev arenaPages : Nat := totalDataPagesOf PageSize.small

theorem arenaPages_eq : arenaPages = 131071 := by decide

theorem arenaPages_small : arenaPages < kFreeListEnd := by decide

/-- The object describes the arena of `core`. -/
structure Arena.At (arena : Arena) (core : Nat) : Prop where
  core_lt : core < kArenaMaxCores
  coreId : arena.coreId = core
  dataBase : arena.dataBase = dataBaseOf core

/-- Address of a data page. -/
def pageAddr (core off : Nat) : Nat := dataBaseOf core + off * 4096

section Address

variable {core off : Nat}

theorem pageAddr_lt (core_lt : core < kArenaMaxCores) (inside : off ≤ arenaPages) :
    pageAddr core off < 2 ^ 46 := by
  rw [arenaPages_eq] at inside
  unfold kArenaMaxCores at core_lt
  unfold pageAddr dataBaseOf baseAddrOf kSharedArenaBaseAddr kArenaCapacityPerCore kArenaHeaderSize
  omega

theorem le_pageAddr (core off : Nat) : 2 ^ 45 ≤ pageAddr core off := by
  unfold pageAddr dataBaseOf baseAddrOf kSharedArenaBaseAddr
  omega

theorem dvd_pageAddr (core off : Nat) : 4096 ∣ pageAddr core off := by
  unfold pageAddr dataBaseOf baseAddrOf kSharedArenaBaseAddr kArenaCapacityPerCore kArenaHeaderSize
  omega

theorem pageAddr_inj {other : Nat} (same : pageAddr core off = pageAddr core other) :
    off = other := by
  unfold pageAddr at same
  omega

variable {arena : Arena}

theorem Arena.At.pageOffToAddr (placed : arena.At core) (inside : off ≤ arenaPages) :
    arena.pageOffToAddr PageSize.small off = pageAddr core off := by
  have bound := pageAddr_lt placed.core_lt inside
  unfold Arena.pageOffToAddr
  rw [placed.dataBase]
  exact wadd_eq (bound.trans (by decide))

theorem Arena.At.addrToPageOff (placed : arena.At core) (inside : off ≤ arenaPages) :
    arena.addrToPageOff PageSize.small (pageAddr core off) = off := by
  have bound := pageAddr_lt placed.core_lt inside
  have above : dataBaseOf core ≤ pageAddr core off := Nat.le_add_right _ _
  have offset : pageAddr core off - dataBaseOf core = off * 4096 := by
    unfold pageAddr
    omega
  unfold Arena.addrToPageOff
  rw [placed.dataBase, wsub_eq (bound.trans (by decide)) above, offset]
  have quotient : off * 4096 / PageSize.small.bytes = off :=
    Nat.mul_div_cancel off (by decide)
  rw [arenaPages_eq] at inside
  rw [quotient]
  exact wrap_eq (by omega)

end Address

/-- What taking pages did: the bookkeeping before and after, and the exact undo. -/
structure TookPages (arena : Arena) (core : Nat) (m : ArenaMemory) (e : Extents arenaPages)
    (off need : Nat) (taken : Taken) (x : Span) (e' : Extents arenaPages) : Prop where
  takes : e.Takes need x e'
  rep : Represents taken.mem e'
  base : taken.allocBase = pageAddr core x.start
  undo : arena.untakePages PageSize.small taken.mem off need taken.allocBase = m

section TakePages

variable {m : ArenaMemory} {e : Extents arenaPages} {arena : Arena} {core need off : Nat}
  {left right : List Span} {b : Span}

/-- Cutting the tail off a block, or taking it whole. -/
theorem FreeListAt.takeFree_eq (list : FreeListAt m (left ++ b :: right))
    (fits : Fits arenaPages (left ++ b :: right)) (placed : arena.At core) (large : need ≤ b.len) :
    arena.takeFree PageSize.small m b.start need =
      if b.len = need then ⟨m.unlinkBlock b.start, pageAddr core b.start⟩
      else ⟨m.setSize b.start (b.len - need), pageAddr core (b.start + (b.len - need))⟩ := by
  have proper : b.start ≠ kFreeListEnd := fits.start_ne (by simp)
  have below : b.start < arenaPages := fits.start_lt (by simp)
  have stop : b.start + b.len ≤ arenaPages := fits.stop_le b (by simp)
  have pages := arenaPages_eq
  have remainder : wsub 32 b.len need = b.len - need := wsub_eq (by omega) large
  unfold Arena.takeFree
  rw [if_pos proper, list.size b (by simp), remainder]
  by_cases whole : b.len = need
  · simp only [whole, Nat.sub_self, if_true, placed.pageOffToAddr below.le]
  · have nonzero : b.len - need ≠ 0 := by omega
    simp only [nonzero, whole, if_false]
    rw [wadd_eq (by omega), placed.pageOffToAddr (by omega)]

theorem Represents.takeFree (rep : Represents m e) (placed : arena.At core) (positive : 0 < need)
    (shape : e.free = left ++ b :: right) (large : need ≤ b.len) :
    ∃ x e', TookPages arena core m e b.start need (arena.takeFree PageSize.small m b.start need)
      x e' := by
  have fits := fits_free arenaPages_small e
  have ordered := ordered_of_gap e.sorted
  have list := rep.free
  rw [shape] at fits ordered list
  have proper : b.start ≠ kFreeListEnd := fits.start_ne (by simp)
  have below : b.start < arenaPages := fits.start_lt (by simp)
  have stop : b.start + b.len ≤ arenaPages := fits.stop_le b (by simp)
  have pages := arenaPages_eq
  have tail : (Extents.tailOf b need).start = b.start + (b.len - need) := by
    unfold Extents.tailOf Span.stop
    change b.start + b.len - need = b.start + (b.len - need)
    omega
  refine ⟨Extents.tailOf b need, e.takeTail left right b need shape positive large, ?_⟩
  have takes := Extents.Takes.tail left right b shape positive large
  rw [list.takeFree_eq fits placed large]
  by_cases whole : b.len = need
  · rw [if_pos whole]
    refine ⟨takes, ⟨?_, ?_, ?_⟩, ?_, ?_⟩
    · rw [ArenaMemory.unlinkBlock_hdr]
      exact rep.total
    · rw [ArenaMemory.unlinkBlock_hdr]
      exact rep.bump
    · have unlinked := list.unlinkBlock fits ordered
      simpa [Extents.takeTail, Extents.frontOf, whole] using unlinked
    · rw [tail, whole]
      simp
    · unfold Arena.untakePages
      rw [if_pos proper, placed.pageOffToAddr below.le, if_pos rfl]
      exact list.relink_unlink fits ordered
  · rw [if_neg whole]
    refine ⟨takes, ⟨rep.total, rep.bump, ?_⟩, ?_, ?_⟩
    · have shortened := list.shorten fits ordered (b.len - need)
      simpa [Extents.takeTail, Extents.frontOf, whole] using shortened
    · rw [tail]
    · have differ : pageAddr core (b.start + (b.len - need)) ≠ pageAddr core b.start := by
        intro same
        have equal := pageAddr_inj same
        omega
      have restored : wadd 32 ((m.setSize b.start (b.len - need)).sizeInPages b.start) need =
          m.sizeInPages b.start := by
        simp only [ArenaMemory.setSize, Function.update_self]
        rw [wadd_eq (by omega), list.size b (by simp)]
        omega
      unfold Arena.untakePages
      rw [if_pos proper, placed.pageOffToAddr below.le, if_neg differ, restored, setSize_setSize,
        setSize_self]

theorem Represents.takeBump (rep : Represents m e) (placed : arena.At core) (positive : 0 < need)
    (bounded : need < 2 ^ 30) :
    (arena.takeBump PageSize.small m need = none ∧ ¬e.bump + need ≤ arenaPages) ∨
      e.bump + need ≤ arenaPages ∧ ∃ taken x e',
        arena.takeBump PageSize.small m need = some taken ∧
          TookPages arena core m e kFreeListEnd need taken x e' := by
  have bound := e.bounded
  have pages := arenaPages_eq
  have sum : wadd 32 e.bump need = e.bump + need := wadd_eq (by omega)
  unfold Arena.takeBump
  simp only [rep.total, rep.bump, sum]
  by_cases room : e.bump + need ≤ arenaPages
  · have fresh : ¬arenaPages < e.bump + need := Nat.not_lt_of_le room
    have represented : Represents (m.setBump (e.bump + need)) (e.takeBump need positive room) :=
      ⟨rep.total, rfl, rep.free.head, rep.free.count, rep.free.linked, rep.free.size,
        rep.free.magic⟩
    refine Or.inr ⟨room, _, ⟨e.bump, need⟩, e.takeBump need positive room, if_neg fresh,
      Extents.Takes.bump positive room, represented, placed.pageOffToAddr bound, ?_⟩
    have restored : wsub 32 (e.bump + need) need = m.hdr.bumpOffsetInPages := by
      rw [rep.bump, wsub_eq (by omega) (by omega)]
      omega
    unfold Arena.untakePages
    rw [if_neg (not_not_intro rfl)]
    change (m.setBump (e.bump + need)).setBump (wsub 32 (e.bump + need) need) = m
    rw [restored, setBump_setBump, setBump_self]
  · exact Or.inl ⟨if_pos (Nat.lt_of_not_le room), room⟩

/-- Pages are taken exactly when some are available; the scan and the taking together
refine `Extents.Takes`. -/
theorem Represents.takePages (rep : Represents m e) (placed : arena.At core) (env : EnvCache)
    (positive : 0 < need) (bounded : need < 2 ^ 30) :
    ∃ off, m.findBestFit env need = some (off, m) ∧
      ((arena.takePages PageSize.small m off need = none ∧ ¬Available env e need) ∨
        Available env e need ∧ ∃ taken x e',
          arena.takePages PageSize.small m off need = some taken ∧
            TookPages arena core m e off need taken x e') := by
  obtain ⟨off, find, best⟩ := rep.findBestFit arenaPages_small env need
  refine ⟨off, find, ?_⟩
  unfold Arena.takePages
  rcases best with ⟨rfl, none⟩ | ⟨fit, left, b, right, shape, rfl, large⟩
  · have untouched : arena.takeFree PageSize.small m kFreeListEnd need = ⟨m, 0⟩ :=
      if_neg (not_not_intro rfl)
    rw [untouched, if_pos rfl]
    rcases rep.takeBump placed positive bounded with ⟨full, above⟩ | ⟨room, bump⟩
    · refine Or.inl ⟨full, ?_⟩
      rintro (fit | room)
      · exact none fit
      · exact above room
    · exact Or.inr ⟨Or.inr room, bump⟩
  · obtain ⟨x, e', took⟩ := rep.takeFree placed positive shape large
    have nonzero : (arena.takeFree PageSize.small m b.start need).allocBase ≠ 0 := by
      have above := le_pageAddr core x.start
      rw [took.base]
      omega
    rw [if_neg nonzero]
    exact Or.inr ⟨Or.inl fit, _, x, e', rfl, took⟩

end TakePages

end Scudo.SharedArena
