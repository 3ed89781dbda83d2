import Scudo.SharedArena.System

/-!
The free list over whole runs that may also reset an arena between two uses: what a walk
along the links in memory meets, and that neither `store` nor `retrieve` ever finds a block
that does not look valid.
-/

namespace Scudo.SharedArena
open Scudo.Lib

namespace Arena

/-- `reset` of one arena. `released` tells whether the kernel punched the hole for the data
pages, which then read as zero. -/
def reset (page : PageSize) (arena : Arena) (m : ArenaMemory) (released : Bool) :
    ArenaMemory × Arena :=
  if arena.initialized = false then (m, arena)
  else
    let hdr := { m.hdr with
      bumpOffsetInPages := 0
      totalDataPages := totalDataPagesOf page
      freeListHeadPageOff := kFreeListEnd
      freeCount := 0
      totalDonatedBytes := 0
      totalRetrievedBytes := 0
      donateCount := 0
      retrieveCount := 0 }
    let arena := { arena with
      logRing := { arena.logRing with
        arenaNrPages := totalDataPagesOf page
        head := 0
        tail := 0
        dropped := 0 }
      logHeadCache := 0
      logTailCache := 0
      logCapacityCache := arena.logRing.capacity
      logCapacityMask := wsub 32 arena.logRing.capacity 1 }
    if released then (⟨hdr, fun _ => 0, fun _ => 0, fun _ => 0, fun _ => 0⟩, arena)
    else ({ m with hdr := hdr }, arena)

theorem reset_idle {page : PageSize} {arena : Arena} {m : ArenaMemory} {released : Bool}
    (idle : arena.initialized = false) : arena.reset page m released = (m, arena) := by
  unfold reset
  rw [if_pos idle]

theorem reset_hdr {page : PageSize} {arena : Arena} {m : ArenaMemory} {released : Bool}
    (initialized : arena.initialized = true) :
    (arena.reset page m released).1.hdr = initialHeader page := by
  unfold reset
  rw [if_neg (by simp [initialized])]
  cases released <;> rfl

theorem reset_identity (page : PageSize) (arena : Arena) (m : ArenaMemory) (released : Bool) :
    SameIdentity arena (arena.reset page m released).2 := by
  unfold reset
  split_ifs
  · exact ⟨rfl, rfl, rfl⟩
  · exact ⟨rfl, rfl, rfl⟩
  · exact ⟨rfl, rfl, rfl⟩

end Arena

/-- Memory with the first header represents the arena nobody has used. -/
theorem represents_empty {m : ArenaMemory} (hdr : m.hdr = initialHeader PageSize.small) :
    Represents m (Extents.empty : Extents arenaPages) where
  total := by
    rw [hdr]
    rfl
  bump := by
    rw [hdr]
    rfl
  free := by
    apply FreeListAt.mk
    · rw [hdr]
      rfl
    · rw [hdr]
      rfl
    · exact linked_nil
    · intro b member
      cases member
    · intro b member
      cases member

namespace World

/-- `process` resets the arena of `core`. -/
def reset (w : World) (process core : Nat) (released : Bool) : World :=
  let result := (w.object process core).reset PageSize.small (w.mem core) released
  { w with
    mem := Function.update w.mem core result.1
    object := setObject w.object process core result.2 }

/-- A step of the arenas, or a reset of one that has no block outstanding. -/
inductive ResetStep (env : Nat → EnvCache) : World → World → Prop
  | use {w w' : World} (step : Step env w w') : ResetStep env w w'
  | reset {w : World} (process core : Nat) (released : Bool) (idle : w.held core = []) :
      ResetStep env w (w.reset process core released)

/-- The arenas of all cores with resets between their uses. -/
def resetSystem (env : Nat → EnvCache) : System World := ⟨Initial, ResetStep env⟩

variable {env : Nat → EnvCache} {w w' : World}

/-- A reset starts the bookkeeping of its arena over. -/
theorem reset_sound (sound : Sound w) (process core : Nat) (released : Bool)
    (idle : w.held core = []) : Sound (w.reset process core released) where
  tracks := by
    intro other
    by_cases same : other = core
    · rw [same]
      by_cases initialized : (w.object process core).initialized = true
      · refine ⟨Extents.empty, represents_empty ?_, idle⟩
        change (Function.update w.mem core _ core).hdr = _
        rw [Function.update_self]
        exact Arena.reset_hdr initialized
      · obtain ⟨e, rep, held⟩ := sound.tracks core
        refine ⟨e, ?_, held⟩
        change Represents (Function.update w.mem core _ core) e
        rw [Function.update_self, Arena.reset_idle (by simpa using initialized)]
        exact rep
    · obtain ⟨e, rep, held⟩ := sound.tracks other
      refine ⟨e, ?_, held⟩
      change Represents (Function.update w.mem core _ other) e
      rw [Function.update_of_ne same]
      exact rep
  placed := by
    apply placed_setObject sound.placed
    exact (sound.placed process core).of_identity (Arena.reset_identity _ _ _ _)

theorem ResetStep.sound (step : ResetStep env w w') (sound : Sound w) : Sound w' := by
  cases step with
  | use step => exact step.sound sound
  | reset process core released idle => exact reset_sound sound process core released idle

theorem resetSystem_sound (reached : (resetSystem env).Reachable w) : Sound w := by
  apply reached.invariant
  · intro s initial
    exact Initial.sound initial
  · intro s s' sound step
    exact step.sound sound

/-- What is reachable without a reset is reachable. -/
theorem reachable_of_system (reached : (system env).Reachable w) :
    (resetSystem env).Reachable w := by
  induction reached with
  | init first => exact System.Reachable.init first
  | step _ move ih => exact ih.step (ResetStep.use move)

end World

namespace ArenaMemory

/-- The offsets that a walk along `NextPageOff` meets, starting with `cur`. -/
def freeOffsets (m : ArenaMemory) : Nat → Nat → List Nat
  | 0, _ => []
  | fuel + 1, cur =>
      if cur = kFreeListEnd then [] else cur :: m.freeOffsets fuel (m.nextPageOff cur)

/-- The offsets of the free list of an arena. -/
def freeList (m : ArenaMemory) : List Nat := m.freeOffsets m.walkFuel m.hdr.freeListHeadPageOff

end ArenaMemory

/-- The free list in memory is in order. -/
structure FreeListIntact (m : ArenaMemory) : Prop where
  head : m.hdr.freeListHeadPageOff = m.freeList.headD kFreeListEnd
  -- the last block has the sentinel as its successor, so the walk has met all of them
  linked : Linked m.nextPageOff m.prevPageOff kFreeListEnd m.freeList kFreeListEnd
  increasing : m.freeList.Pairwise (· < ·)
  magic : ∀ off ∈ m.freeList, m.magic off = kFreeBlockMagic
  nonempty : ∀ off ∈ m.freeList, 1 ≤ m.sizeInPages off
  inside : ∀ off ∈ m.freeList, off + m.sizeInPages off ≤ m.hdr.bumpOffsetInPages
  bump_le : m.hdr.bumpOffsetInPages ≤ m.hdr.totalDataPages
  coalesced : m.freeList.Pairwise fun a b => a + m.sizeInPages a < b
  count : m.hdr.freeCount = m.freeList.length

/-- A walk along linked nodes meets them in order. -/
theorem freeOffsets_of_linked {m : ArenaMemory} {nodes : List Nat} {before fuel : Nat}
    (linked : Linked m.nextPageOff m.prevPageOff before nodes kFreeListEnd)
    (proper : ∀ off ∈ nodes, off ≠ kFreeListEnd) (enough : nodes.length < fuel) :
    m.freeOffsets fuel (nodes.headD kFreeListEnd) = nodes := by
  induction nodes generalizing before fuel with
  | nil =>
    obtain ⟨fuel, rfl⟩ := Nat.exists_eq_succ_of_ne_zero (by omega : fuel ≠ 0)
    simp [ArenaMemory.freeOffsets]
  | cons off rest ih =>
    obtain ⟨fuel, rfl⟩ := Nat.exists_eq_succ_of_ne_zero (by omega : fuel ≠ 0)
    have notEnd := proper off List.mem_cons_self
    rw [List.headD_cons, ArenaMemory.freeOffsets, if_neg notEnd, linked.2.1,
      ih linked.2.2 (fun y member => proper y (List.mem_cons_of_mem _ member))
        (by simpa using enough)]

section Represented

variable {m : ArenaMemory} {e : Extents arenaPages}

theorem Represents.fits (rep : Represents m e) : Fits m.hdr.totalDataPages e.free := by
  rw [rep.total]
  exact fits_free arenaPages_small e

theorem Represents.walkFuel_gt (rep : Represents m e) : e.free.length < m.walkFuel := by
  have count := (fits_free arenaPages_small e).length_le (ordered_of_gap e.sorted)
  have total := rep.total
  unfold ArenaMemory.walkFuel
  omega

/-- The blocks in memory are the free spans of the bookkeeping. -/
theorem Represents.freeList_eq (rep : Represents m e) : m.freeList = starts e.free := by
  have fits := fits_free arenaPages_small e
  unfold ArenaMemory.freeList
  rw [rep.free.head]
  apply freeOffsets_of_linked rep.free.linked fits.proper
  simpa [starts] using rep.walkFuel_gt

theorem Represents.freeListIntact (rep : Represents m e) : FreeListIntact m := by
  have fits := fits_free arenaPages_small e
  have list := rep.freeList_eq
  apply FreeListIntact.mk
  · rw [list]
    exact rep.free.head
  · rw [list]
    exact rep.free.linked
  · rw [list]
    exact fits.increasing (ordered_of_gap e.sorted)
  · intro off member
    rw [list] at member
    obtain ⟨b, free, rfl⟩ := List.mem_map.mp member
    exact rep.free.magic b free
  · intro off member
    rw [list] at member
    obtain ⟨b, free, rfl⟩ := List.mem_map.mp member
    rw [rep.free.size b free]
    exact fits.nonempty b free
  · intro off member
    rw [list] at member
    obtain ⟨b, free, rfl⟩ := List.mem_map.mp member
    rw [rep.free.size b free, rep.bump]
    exact e.inside b (List.mem_append_left _ free)
  · rw [rep.bump, rep.total]
    exact e.bounded
  · rw [list]
    apply List.pairwise_map.mpr
    apply e.sorted.imp_of_mem
    intro a b memberA _ gap
    rw [rep.free.size a memberA]
    exact gap
  · rw [list, rep.free.count]
    simp [starts]

/-- The walk of `store` ends and meets no block that looks invalid. -/
theorem Represents.findInsertPoint_sound (rep : Represents m e) (newPageOff : Nat) :
    ∃ point, m.findInsertPoint newPageOff m.walkFuel kFreeListEnd m.hdr.freeListHeadPageOff =
      some point ∧ point.corrupt = false := by
  exact ⟨_, rep.free.findInsertPoint_eq newPageOff rep.fits m.walkFuel rep.walkFuel_gt, rfl⟩

/-- The scan of `retrieve` ends and meets no block that looks invalid. -/
theorem Represents.bestFitScan_sound (rep : Represents m e) (neededPages : Nat) :
    ∃ best, m.bestFitScan neededPages m.walkFuel m.hdr.freeListHeadPageOff kFreeListEnd
      0xFFFFFFFF = some best ∧ best.corrupt = false := by
  obtain ⟨off, pages, scan, _⟩ :=
    rep.free.bestFitScan_spec neededPages rep.fits m.walkFuel rep.walkFuel_gt
  exact ⟨_, scan, rfl⟩

end Represented

/-- In every run of uses and resets the free list of every arena is in order and fully
coalesced, and no walk drops it as corrupt. -/
theorem free_list_intact (env : Nat → EnvCache) (w : World)
    (reached : (World.resetSystem env).Reachable w) (core : Nat) :
    FreeListIntact (w.mem core) ∧
      (∀ newPageOff, ∃ point, (w.mem core).findInsertPoint newPageOff (w.mem core).walkFuel
        kFreeListEnd (w.mem core).hdr.freeListHeadPageOff = some point ∧ point.corrupt = false) ∧
      ∀ neededPages, ∃ best, (w.mem core).bestFitScan neededPages (w.mem core).walkFuel
        (w.mem core).hdr.freeListHeadPageOff kFreeListEnd 0xFFFFFFFF = some best ∧
          best.corrupt = false := by
  obtain ⟨e, rep, _⟩ := (World.resetSystem_sound reached).tracks core
  exact ⟨rep.freeListIntact, rep.findInsertPoint_sound, rep.bestFitScan_sound⟩

/-- Two processes leave two blocks of core 0 on its free list while core 2 is reset. -/
theorem free_list_intact_two_blocks :
    ∃ w, World.fresh.calls (fun _ => ⟨false, false⟩)
        [.retrieve 1 0 ⟨0, 0⟩ 4000 16 80, .retrieve 2 0 ⟨0, 0⟩ 9000 64 80,
          .retrieve 2 0 ⟨0, 0⟩ 100 16 80, .store 2 0 none ⟨0, 0⟩ (pageAddr 0 4) 4096,
          .store 1 0 none ⟨0, 0⟩ (pageAddr 0 0) 4096] = some w ∧
      ((w.reset 1 2 true).mem 0).freeList = [0, 4] ∧
      FreeListIntact ((w.reset 1 2 true).mem 0) := by
  have lists : (World.fresh.calls (fun _ => ⟨false, false⟩)
      [.retrieve 1 0 ⟨0, 0⟩ 4000 16 80, .retrieve 2 0 ⟨0, 0⟩ 9000 64 80,
        .retrieve 2 0 ⟨0, 0⟩ 100 16 80, .store 2 0 none ⟨0, 0⟩ (pageAddr 0 4) 4096,
        .store 1 0 none ⟨0, 0⟩ (pageAddr 0 0) 4096]).map
          (fun w => (((w.reset 1 2 true).mem 0).freeList, w.held 2)) = some ([0, 4], []) := by
    decide
  obtain ⟨w, run, found⟩ := Option.map_eq_some_iff.mp lists
  simp only [Prod.mk.injEq] at found
  have used := World.reachable_of_system
    (World.reachable_of_calls (System.Reachable.init World.fresh_initial) run)
  have reached := used.step (World.ResetStep.reset 1 2 true found.2)
  exact ⟨w, run, found.1, (free_list_intact _ _ reached 0).1⟩

end Scudo.SharedArena
