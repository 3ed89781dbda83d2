import Mathlib.Data.List.Induction
import Scudo.SharedArena.Ownership

/-!
Failing calls. A `store` that fails changes nothing, and neither does a `retrieve`, except
when it takes pages and then finds that the header does not fit in front of the aligned
user part.
-/

namespace Scudo.SharedArena
open Scudo.Lib

theorem FreeListAt.onFreeList {m : ArenaMemory} {free : List Span} {total : Nat}
    (list : FreeListAt m free) (fits : Fits total free) {b : Span} (member : b ∈ free) :
    OnFreeList m b.start := by
  obtain ⟨left, right, rfl⟩ := List.append_of_mem member
  induction left using List.reverseRecOn generalizing b right with
  | nil =>
    have head := list.head
    have proper := fits.start_ne member
    rw [List.nil_append, starts_cons, List.headD_cons] at head
    rw [← head] at proper ⊢
    exact OnFreeList.head proper
  | append_singleton front p ih =>
    have shape : (front ++ [p]) ++ b :: right = front ++ p :: b :: right := by simp
    have proper := fits.start_ne member
    rw [shape] at list fits
    have before : OnFreeList m p.start := ih (b :: right) list fits (by simp)
    have next := list.next_eq
    rw [starts_cons, List.headD_cons] at next
    rw [← next] at proper ⊢
    exact OnFreeList.next before proper

/-- The header page and the headers of all blocks on the free list are as before. -/
def Unchanged (m m' : ArenaMemory) : Prop :=
  m'.hdr = m.hdr ∧ ∀ off, OnFreeList m off → m'.getFreeBlock off = m.getFreeBlock off

theorem Unchanged.refl (m : ArenaMemory) : Unchanged m m := ⟨rfl, fun _ _ => rfl⟩

/-- Taking pages shows in the header or in a block of the free list. -/
theorem Represents.changed_of_takes {m m' : ArenaMemory} {e e' : Extents arenaPages}
    {need : Nat} {x : Span} (rep : Represents m e) (rep' : Represents m' e')
    (takes : e.Takes need x e') : ¬Unchanged m m' := by
  rintro ⟨hdr, blocks⟩
  cases takes with
  | tail left right b shape positive fits =>
    have count := rep.free.count
    have count' := rep'.free.count
    by_cases whole : b.len = need
    · rw [shape] at count
      rw [hdr, count] at count'
      simp [Extents.takeTail, Extents.frontOf, whole] at count'
    · have member : b ∈ e.free := by simp [shape]
      have size := rep.free.size b member
      have visited := rep.free.onFreeList (fits_free arenaPages_small e) member
      have same := congrArg FreeBlockHeader.sizeInPages (blocks b.start visited)
      have size' := rep'.free.size ⟨b.start, b.len - need⟩
        (by simp [Extents.takeTail, Extents.frontOf, whole])
      simp only [ArenaMemory.getFreeBlock] at same size'
      omega
  | bump positive room =>
    have bump := rep.bump
    have bump' := rep'.bump
    rw [hdr, bump] at bump'
    simp only [Extents.takeBump] at bump'
    omega

/-- A failed `retrieve` left the arena as it was and logged nothing. -/
def RetrieveResult.Atomic (m : ArenaMemory) (arena : Arena) (result : RetrieveResult) : Prop :=
  result.out = none →
    Unchanged m result.mem ∧ SameButCounters arena result.arena ∧ result.written = none

/-- A failed `store` left the arena as it was and logged nothing. -/
def StoreResult.Atomic (m : ArenaMemory) (log : Arena) (result : StoreResult) : Prop :=
  result.ok = false →
    Unchanged m result.mem ∧ SameButCounters log result.logArena ∧ result.written = none

/-- `retrieve` runs into the alignment exit after it has taken pages. -/
def LeaksPages (env : EnvCache) (arena : Arena) (e : Extents arenaPages)
    (size alignment headersSize : Nat) : Prop :=
  arena.initialized = true ∧ Available env e (pagesFor size headersSize) ∧
    Misfit size alignment headersSize

theorem RetrieveOutcome.atomic_iff {env : EnvCache} {arena : Arena} {core : Nat} {m : ArenaMemory}
    {e : Extents arenaPages} {size alignment headersSize : Nat} {result : RetrieveResult}
    (rep : Represents m e)
    (outcome : RetrieveOutcome env arena core m e size alignment headersSize result) :
    result.Atomic m arena ↔ ¬LeaksPages env arena e size alignment headersSize := by
  unfold RetrieveResult.Atomic LeaksPages
  cases outcome with
  | idle idle => simp [idle, Unchanged.refl, SameButCounters.refl]
  | exhausted initialized short => simp [short, Unchanged.refl, SameButCounters.refl]
  | leaked initialized available misfit m' x e' takes rep' =>
    have changed := rep.changed_of_takes rep' takes
    simp [initialized, available, misfit, changed]
  | unlogged initialized available fits arena' counters =>
    simp [fits, Unchanged.refl, counters]
  | handed initialized available fits m' x e' takes rep' arena' written append => simp [fits]

/-- Failed calls are atomic, except exactly the `retrieve` that leaks pages. -/
theorem arena_failure_atomic_iff (env : EnvCache) (arena : Arena) (core : Nat) (m : ArenaMemory)
    (e : Extents arenaPages) (rep : Represents m e) (placed : arena.Placed core)
    (loads : HeadLoads) :
    (∀ size alignment headersSize, Request size alignment headersSize →
      ∃ result, arena.retrieve env PageSize.small m loads size alignment headersSize = some result ∧
        (result.Atomic m arena ↔ ¬LeaksPages env arena e size alignment headersSize)) ∧
      ∀ logArena commitBase commitSize result,
        arena.store env PageSize.small logArena m loads commitBase commitSize = some result →
        result.Atomic m (logArena.getD arena) := by
  refine ⟨?_, ?_⟩
  · intro size alignment headersSize request
    obtain ⟨result, run, outcome⟩ := rep.retrieve placed request env loads
    exact ⟨result, run, outcome.atomic_iff rep⟩
  · intro logArena commitBase commitSize result run failed
    obtain ⟨mem, counters, nothing⟩ := store_failed run failed
    exact ⟨mem ▸ Unchanged.refl m, counters, nothing⟩

/-- An empty arena in which nothing is handed out. -/
theorem fresh_represents : Represents (World.fresh.mem 0) (Extents.empty : Extents arenaPages) := by
  refine ⟨rfl, rfl, rfl, rfl, trivial, ?_, ?_⟩
  · intro b member
    cases member
  · intro b member
    cases member

/-- A request of 4016 bytes at alignment 32 fails on a fresh arena and takes its first page. -/
theorem arena_failure_not_atomic :
    ¬∀ (env : EnvCache) (arena : Arena) (core : Nat) (m : ArenaMemory) (e : Extents arenaPages)
      (loads : HeadLoads) (size alignment headersSize : Nat) (result : RetrieveResult),
      Represents m e → arena.Placed core → Request size alignment headersSize →
      arena.retrieve env PageSize.small m loads size alignment headersSize = some result →
      result.Atomic m arena := by
  intro claim
  obtain ⟨result, run⟩ := Option.isSome_iff_exists.mp (show ((World.freshObject 0).retrieve
    ⟨false, false⟩ PageSize.small (World.fresh.mem 0) ⟨0, 0⟩ 4016 32 80).isSome = true by decide)
  have shape : ((World.freshObject 0).retrieve ⟨false, false⟩ PageSize.small (World.fresh.mem 0)
      ⟨0, 0⟩ 4016 32 80).map (fun r => (r.out, r.mem.hdr.bumpOffsetInPages)) = some (none, 1) := by
    decide
  rw [run] at shape
  obtain ⟨failed, bump⟩ := Prod.mk.inj (Option.some.inj shape)
  have atomic := claim _ _ 0 _ _ _ _ _ _ result fresh_represents
    (World.fresh_initial.placed 0 0) (by decide) run
  have hdr := (atomic failed).1.1
  have same := congrArg SharedArenaHeader.bumpOffsetInPages hdr
  rw [bump] at same
  exact absurd same (by decide)

/-- Three pages are taken and two of them stored, and then page 0 is taken and stored until
the 256 entries of the log ring are all in use. -/
def ringFilled : List World.Call :=
  [.retrieve 0 0 ⟨0, 0⟩ 4016 16 80, .retrieve 0 0 ⟨0, 0⟩ 4016 16 80,
    .retrieve 0 0 ⟨0, 0⟩ 4016 16 80, .store 0 0 none ⟨0, 0⟩ (pageAddr 0 2) 4096] ++
    (List.replicate 126 [.store 0 0 none ⟨0, 0⟩ (pageAddr 0 0) 4096,
      .retrieve 0 0 ⟨0, 0⟩ 4016 16 80]).flatten

/-- With page 2 free and the ring full, one page is taken and put back, 2^29 bytes find no
pages, and the block at page 0 cannot be stored; all three calls change nothing. -/
theorem arena_failure_atomic_iff_full :
    ∃ w one many given, World.fresh.calls (fun _ => ⟨false, false⟩) ringFilled = some w ∧
      (w.mem 0).hdr.freeCount = 1 ∧
      (w.object 0 0).retrieve ⟨false, false⟩ PageSize.small (w.mem 0) ⟨0, 0⟩ 4016 16 80 =
        some one ∧ one.out = none ∧ one.arena.logRing.dropped = 1 ∧ Unchanged (w.mem 0) one.mem ∧
      (w.object 0 0).retrieve ⟨false, false⟩ PageSize.small (w.mem 0) ⟨0, 0⟩ (2 ^ 29) 16 80 =
        some many ∧ many.out = none ∧ Unchanged (w.mem 0) many.mem ∧
      (w.object 0 0).store ⟨false, false⟩ PageSize.small none (w.mem 0) ⟨0, 0⟩ (pageAddr 0 0)
        4096 = some given ∧ given.ok = false ∧ Unchanged (w.mem 0) given.mem := by
  obtain ⟨w, run⟩ := Option.isSome_iff_exists.mp (show (World.fresh.calls
    (fun _ => ⟨false, false⟩) ringFilled).isSome = true by decide +kernel)
  have shape : (World.fresh.calls (fun _ => ⟨false, false⟩) ringFilled).all (fun w =>
      (w.mem 0).hdr.freeCount = 1 ∧
      ((w.object 0 0).retrieve ⟨false, false⟩ PageSize.small (w.mem 0) ⟨0, 0⟩ 4016 16 80).map
        (fun r => (r.out, r.arena.logRing.dropped)) = some (none, 1) ∧
      ((w.object 0 0).retrieve ⟨false, false⟩ PageSize.small (w.mem 0) ⟨0, 0⟩ (2 ^ 29) 16 80).map
        RetrieveResult.out = some none ∧
      ((w.object 0 0).store ⟨false, false⟩ PageSize.small none (w.mem 0) ⟨0, 0⟩ (pageAddr 0 0)
        4096).map StoreResult.ok = some false) = true := by
    decide +kernel
  rw [run, Option.all_some, decide_eq_true_eq] at shape
  obtain ⟨free, oneFails, manyFails, givenFails⟩ := shape
  have reached := World.reachable_of_calls (System.Reachable.init World.fresh_initial) run
  have sound := World.reachable_sound reached
  obtain ⟨e, tracks⟩ := sound.tracks 0
  obtain ⟨retrieves, stores⟩ := arena_failure_atomic_iff ⟨false, false⟩ (w.object 0 0) 0
    (w.mem 0) e tracks.rep (sound.placed 0 0) ⟨0, 0⟩
  obtain ⟨one, runOne, atomicOne⟩ := retrieves 4016 16 80 (by decide)
  obtain ⟨many, runMany, atomicMany⟩ := retrieves (2 ^ 29) 16 80 (by decide)
  obtain ⟨given, runGiven, failed⟩ := Option.map_eq_some_iff.mp givenFails
  rw [runOne, Option.map_some, Option.some.injEq, Prod.mk.injEq] at oneFails
  rw [runMany, Option.map_some, Option.some.injEq] at manyFails
  have fitsOne : ¬LeaksPages ⟨false, false⟩ (w.object 0 0) e 4016 16 80 :=
    fun leaks => absurd leaks.2.2 (by decide)
  have fitsMany : ¬LeaksPages ⟨false, false⟩ (w.object 0 0) e (2 ^ 29) 16 80 :=
    fun leaks => absurd leaks.2.2 (by decide)
  exact ⟨w, one, many, given, run, free, runOne, oneFails.1, oneFails.2,
    (atomicOne.mpr fitsOne oneFails.1).1, runMany, manyFails,
    (atomicMany.mpr fitsMany manyFails).1, runGiven, failed,
    (stores none _ _ given runGiven failed).1⟩

end Scudo.SharedArena
