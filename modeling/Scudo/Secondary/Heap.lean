import Scudo.SharedArena.Handouts
import Scudo.Secondary.CacheSpec

/-!
Runs of one `MapAllocator`: blocks are allocated on any path, written to, and released in any
order, while options change. Every allocation is sound: its committed range lies in its mapping
or arena, and header and user part fit.
-/

namespace Scudo.Secondary
open Scudo.SharedArena

/-- What the code relies on outside of the heap. Arenas are those of some run of all processes;
`mmap` returns page ranges of the address space, and there are no arenas with 32-bit words. -/
structure Surroundings.Sane (p : Platform) (sur : Surroundings) : Prop where
  placed : ∀ core, (sur.arenas core).Placed core
  shared : p.page = PageSize.small → ∃ env w process, (World.system env).Reachable w ∧
    ∀ core, w.mem core = sur.arenaMem core ∧ w.object process core = sur.arenas core
  word : sur.useArena = true → p.word = .w64
  mmap : ∀ size base, sur.mmap size = some base → Reserved p base size

/-- What lies around the committed range, by the path that provided it. -/
def Source.Guards (p : Platform) (block : LargeBlock) : Source → Prop
  | .arena core => core < kArenaMaxCores ∧ dataBaseOf core ≤ block.commitBase ∧
      block.commitBase + block.commitSize ≤ baseAddrOf core + kArenaCapacityPerCore
  | .cache => True
  | .map => block.memMap.base + p.page.bytes ≤ block.commitBase ∧
      block.commitBase + block.commitSize + p.page.bytes ≤
        block.memMap.base + block.memMap.capacity

/-- What every successful call of `allocate` guarantees. -/
structure Allocation.Sound (p : Platform) (req : Request) (a : Allocation) : Prop where
  range : InMapping p a.block.commitBase a.block.commitSize a.block.memMap
  fits : FitsIn p req a.block.commitBase a.block.commitSize a.block.headerPos
  position : a.block.headerPos + p.word.getHeadersSize =
    roundDownSlow (a.block.commitBase + a.block.commitSize - req.size) req.alignment
  guards : a.source.Guards p a.block
  blockEnd : a.blockEnd = a.block.commitBase + a.block.commitSize

section Paths
open MapAllocator

variable {p : Platform} {sur : Surroundings} {req : Request} {cache cache' : Cache}

/-- The request as an arena sees it. -/
theorem Request.Adjusted.arenaRequest (adjusted : req.Adjusted p) (word : p.word = .w64)
    (small : req.alignment < 4096) :
    SharedArena.Request req.size req.alignment p.word.getHeadersSize := by
  have sizeBound := adjusted.size_lt
  have headersLe := p.word.getHeadersSize_le
  rw [word] at sizeBound
  exact ⟨sizeBound.trans (by decide), adjusted.power, small, p.word.getHeadersSize_pos, by omega⟩

/-- A handout makes a sound block. -/
theorem arenaAllocation_sound {core : Nat} {h : Handout} (word : p.word = .w64)
    (page : p.page = PageSize.small)
    (inside : h.Inside core req.size req.alignment p.word.getHeadersSize) :
    (arenaAllocation p sur req core h).Sound p req := by
  have core_lt := inside.core_lt
  have above := inside.base
  have below := inside.stop
  unfold kArenaMaxCores at core_lt
  have bounds : 0 < h.commitBase ∧ h.commitBase + h.commitSize < 2 ^ 46 := by
    unfold dataBaseOf at above
    unfold baseAddrOf kSharedArenaBaseAddr kArenaCapacityPerCore kArenaHeaderSize at *
    omega
  have range : InMapping p h.commitBase h.commitSize (arenaAllocation p sur req core h).block.memMap := by
    refine ⟨bounds.1, le_refl h.commitBase, le_refl (h.commitBase + h.commitSize), ?_, ?_⟩
    · rw [page]
      exact inside.pages
    · rw [page, word]
      change h.commitBase + h.commitSize + 4096 ≤ 2 ^ 64
      omega
  exact ⟨range, ⟨inside.header, inside.aligned, inside.user⟩, inside.position,
    ⟨inside.core_lt, inside.base, inside.stop⟩, range.stop_eq⟩

/-- The arena path asks no arena, or it hands out what the arena of this processor retrieves. -/
theorem tryAllocateFromArena_cases {allocated : Option Allocation}
    {result : Option (Nat × RetrieveResult)}
    (run : tryAllocateFromArena p sur req = some (allocated, result)) :
    (allocated = none ∧ result = none) ∨ ∃ core retrieved,
      sur.pool.getCurrentArena sur.arenas sur.cpu = some core ∧
        (sur.arenas core).retrieve sur.env p.page (sur.arenaMem core) sur.loads req.size
          req.alignment p.word.getHeadersSize = some retrieved ∧
        allocated = retrieved.out.map (arenaAllocation p sur req core) ∧
        result = some (core, retrieved) := by
  unfold tryAllocateFromArena at run
  split_ifs at run
  · cases run
    exact Or.inl ⟨rfl, rfl⟩
  · cases run
    exact Or.inl ⟨rfl, rfl⟩
  · cases run
    exact Or.inl ⟨rfl, rfl⟩
  · split at run
    · cases run
      exact Or.inl ⟨rfl, rfl⟩
    · next core current =>
      split at run
      · cases run
      · next retrieved retrieves =>
        cases run
        exact Or.inr ⟨core, retrieved, current, retrieves, rfl, rfl⟩

/-- The arena path ends in the block of a handout of this run. -/
theorem tryAllocateFromArena_some {a : Allocation} {result : Option (Nat × RetrieveResult)}
    (run : tryAllocateFromArena p sur req = some (some a, result)) :
    ∃ core h retrieved, (sur.arenas core).retrieve sur.env p.page (sur.arenaMem core) sur.loads
      req.size req.alignment p.word.getHeadersSize = some retrieved ∧ retrieved.out = some h ∧
        result = some (core, retrieved) ∧ a = arenaAllocation p sur req core h := by
  obtain ⟨none_, _⟩ | ⟨core, retrieved, _, retrieves, some_, same⟩ := tryAllocateFromArena_cases run
  · cases none_
  · obtain ⟨h, out, block⟩ := Option.map_eq_some_iff.mp some_.symm
    exact ⟨core, h, retrieved, retrieves, out, same, block.symm⟩

theorem tryAllocateFromArena_none {result : Option (Nat × RetrieveResult)}
    (run : tryAllocateFromArena p sur req = some (none, result)) :
    ∀ core retrieved, result = some (core, retrieved) → retrieved.out = none := by
  intro core retrieved same
  obtain ⟨_, unasked⟩ | ⟨_, _, _, _, none_, asked⟩ := tryAllocateFromArena_cases run
  · rw [same] at unasked
    cases unasked
  · rw [same] at asked
    cases asked
    exact Option.map_eq_none_iff.mp none_.symm

theorem tryAllocateFromArena_sound (adjusted : req.Adjusted p) (sane : sur.Sane p)
    (small : req.alignment < p.page.bytes) (word : p.word = .w64) {a : Allocation}
    {result : Option (Nat × RetrieveResult)}
    (run : tryAllocateFromArena p sur req = some (some a, result)) : a.Sound p req := by
  obtain ⟨core, h, retrieved, retrieves, out, _, rfl⟩ := tryAllocateFromArena_some run
  have page : p.page = PageSize.small := by
    by_contra different
    have larger : p.page.bytes ≠ 4096 := by
      intro same
      obtain ⟨word, ⟨bytes, power, atLeast, atMost⟩⟩ := p
      cases same
      exact different rfl
    rw [retrieve_larger_page (sane.placed core) larger retrieves] at out
    cases out
  obtain ⟨env, w, process, reached, same⟩ := sane.shared page
  rw [page, ← (same core).1, ← (same core).2] at retrieves
  rw [page] at small
  exact arenaAllocation_sound word page
    (handout_inside reached sur.env sur.loads (adjusted.arenaRequest word small) retrieves out)

/-- The cache path ends in the block of an entry that the cache gives up. -/
theorem tryAllocateFromCache_some {a : Allocation}
    (run : tryAllocateFromCache p sur cache req = (some a, cache')) :
    ∃ maxPages entry headerPos, Cache.Retrieved p cache maxPages req.size req.alignment
      p.word.getHeadersSize entry headerPos cache' ∧ a = cacheAllocation p sur req entry headerPos := by
  unfold tryAllocateFromCache at run
  dsimp only at run
  split at run
  · cases run
  · next entry headerPos cache'' retrieves =>
    have retrieved := Cache.retrieve_some retrieves
    by_cases invalid : entry.isValid = false
    · rw [if_pos invalid] at run
      cases run
    · rw [if_neg invalid] at run
      cases run
      exact ⟨_, entry, headerPos, retrieved, rfl⟩

theorem tryAllocateFromCache_shrinks {a : Option Allocation}
    (run : tryAllocateFromCache p sur cache req = (a, cache')) : cache'.Shrinks cache := by
  unfold tryAllocateFromCache at run
  dsimp only at run
  split at run
  · next retrieves =>
    obtain ⟨entries, quarantine⟩ := Cache.retrieve_none retrieves
    cases run
    exact ⟨entries ▸ List.Sublist.refl _, quarantine⟩
  · next retrieves =>
    have retrieved := Cache.retrieve_some retrieves
    split_ifs at run
    · cases run
      exact ⟨retrieved.rest, retrieved.quarantine⟩
    · cases run
      exact ⟨retrieved.rest, retrieved.quarantine⟩

/-- An entry of a sound cache, as `retrieve` gives it up, is sound and has room. -/
theorem Cache.Retrieved.sound {maxPages headerPos : Nat} {entry : CachedBlock}
    (retrieved : Cache.Retrieved p cache maxPages req.size req.alignment p.word.getHeadersSize
      entry headerPos cache') (adjusted : req.Adjusted p) (ok : cache.Ok p) :
    entry.Ok p ∧ FitsIn p req entry.commitBase entry.commitSize headerPos ∧
      headerPos + p.word.getHeadersSize =
        roundDownSlow (entry.commitBase + entry.commitSize - req.size) req.alignment := by
  obtain ⟨kept, member, released, position, suitable⟩ := retrieved.from_entry
  have keptOk := ok.entries kept member
  obtain ⟨fits, exact⟩ := keptOk.fitsIn adjusted suitable
  obtain ⟨base, size, _⟩ := CachedBlock.releaseFragment_fields p kept headerPos
  rw [← position, ← base, ← size, ← released] at fits exact
  exact ⟨released ▸ keptOk.releaseFragment headerPos, fits, exact⟩

theorem allocateFromMap_some {a : Allocation} (run : allocateFromMap p sur req = some a) :
    ∃ mapBase, sur.mmap (mapSize p req.size req.alignment) = some mapBase ∧
      a = mapAllocation p sur req mapBase := by
  unfold allocateFromMap at run
  split at run
  · cases run
  · next mapBase maps =>
    split_ifs at run
    cases run
    exact ⟨mapBase, maps, rfl⟩

/-- Subtracting the headers from `AllocPos` does not wrap. -/
theorem mapAllocation_headerPos (sur : Surroundings) {mapBase : Nat}
    (reserved : Reserved p mapBase (mapSize p req.size req.alignment))
    (sound : (layout p req.size req.alignment mapBase).Sound p req mapBase) :
    (mapAllocation p sur req mapBase).block.headerPos + p.word.getHeadersSize =
      (layout p req.size req.alignment mapBase).allocPos p req.size req.alignment := by
  have inside := reserved.inside
  have stop := sound.stop_le
  have guardAfter := sound.guardAfter
  have headerRoom := sound.headerRoom
  have userRoom := sound.userRoom
  have position : (mapAllocation p sur req mapBase).block.headerPos =
      (layout p req.size req.alignment mapBase).allocPos p req.size req.alignment -
        p.word.getHeadersSize := wsub_eq (by omega) (by omega)
  omega

theorem mapAllocation_sound {mapBase : Nat} (adjusted : req.Adjusted p)
    (reserved : Reserved p mapBase (mapSize p req.size req.alignment)) :
    (mapAllocation p sur req mapBase).Sound p req := by
  have sound := layout_sound adjusted reserved
  have position := mapAllocation_headerPos sur reserved sound
  have inside := reserved.inside
  have stop := sound.stop_le
  have guardBefore := sound.guardBefore
  have guardAfter := sound.guardAfter
  have headerRoom := sound.headerRoom
  have pagePos := p.page.pos
  have range : InMapping p (layout p req.size req.alignment mapBase).commitBase
      ((layout p req.size req.alignment mapBase).commitSize p)
      (mapAllocation p sur req mapBase).block.memMap := by
    have range : InMapping p (layout p req.size req.alignment mapBase).commitBase
        ((layout p req.size req.alignment mapBase).commitSize p)
        (layout p req.size req.alignment mapBase).memMap :=
      ⟨by omega, by omega, by omega, sound.commitPages, by omega⟩
    exact range.of_same rfl rfl
  refine ⟨range, ?_, position.trans (sound.allocPos_eq adjusted reserved),
    ⟨guardBefore, guardAfter.le⟩, range.stop_eq⟩
  constructor
  · change (layout p req.size req.alignment mapBase).commitBase ≤ _
    omega
  · rw [position]
    exact sound.aligned
  · rw [position]
    exact sound.userRoom

theorem allocatePrivate_shrinks {a : Option Allocation}
    (run : allocatePrivate p sur cache req = (a, cache')) : cache'.Shrinks cache := by
  unfold allocatePrivate at run
  dsimp only at run
  split_ifs at run
  · split at run
    · next tried =>
      cases run
      exact tryAllocateFromCache_shrinks tried
    · next tried =>
      cases run
      exact tryAllocateFromCache_shrinks tried
  · cases run
    exact Cache.Shrinks.refl cache

/-- The paths of `allocate` after the arena. -/
inductive PrivatePath (p : Platform) (sur : Surroundings) (cache cache' : Cache) (req : Request) :
    Allocation → Prop
  | cache (maxPages headerPos : Nat) (entry : CachedBlock)
      (found : cachedBlock p sur cache req = some (cacheAllocation p sur req entry headerPos))
      (retrieved : Cache.Retrieved p cache maxPages req.size req.alignment p.word.getHeadersSize
        entry headerPos cache') :
      PrivatePath p sur cache cache' req (cacheAllocation p sur req entry headerPos)
  | map (mapBase : Nat) (notFound : cachedBlock p sur cache req = none)
      (maps : sur.mmap (mapSize p req.size req.alignment) = some mapBase) :
      PrivatePath p sur cache cache' req (mapAllocation p sur req mapBase)

theorem allocatePrivate_path {a : Allocation}
    (run : allocatePrivate p sur cache req = (some a, cache')) :
    PrivatePath p sur cache cache' req a := by
  unfold allocatePrivate at run
  dsimp only at run
  split_ifs at run with caches
  · split at run
    · next tried =>
      cases run
      obtain ⟨maxPages, entry, headerPos, retrieved, rfl⟩ := tryAllocateFromCache_some tried
      apply PrivatePath.cache maxPages headerPos entry _ retrieved
      unfold cachedBlock
      rw [if_pos caches, tried]
    · next tried =>
      simp only [Prod.mk.injEq] at run
      obtain ⟨mapBase, maps, rfl⟩ := allocateFromMap_some run.1
      apply PrivatePath.map mapBase _ maps
      unfold cachedBlock
      rw [if_pos caches, tried]
  · simp only [Prod.mk.injEq] at run
    obtain ⟨mapBase, maps, rfl⟩ := allocateFromMap_some run.1
    apply PrivatePath.map mapBase _ maps
    unfold cachedBlock
    rw [if_neg caches]

/-- How a call of `allocate` was served: by an arena, or on one of the private paths when no
arena did. -/
inductive Path (p : Platform) (sur : Surroundings) (cache cache' : Cache) (req : Request) :
    Allocation → Prop
  | arena (core : Nat) (h : Handout) (retrieved : RetrieveResult)
      (served : arenaHandout p sur req = some (core, h)) (uses : sur.useArena = true)
      (small : req.alignment < p.page.bytes)
      (run : tryAllocateFromArena p sur req =
        some (some (arenaAllocation p sur req core h), some (core, retrieved))) :
      Path p sur cache cache' req (arenaAllocation p sur req core h)
  | own (a : Allocation) (notServed : arenaHandout p sur req = none)
      (path : PrivatePath p sur cache cache' req a) : Path p sur cache cache' req a

theorem allocate_path {a : Allocation} {result : Option (Nat × RetrieveResult)}
    (run : allocate p sur cache req = some (some a, cache', result)) :
    Path p sur cache cache' (adjust p req) a := by
  unfold allocate at run
  dsimp only at run
  split_ifs at run with useArena
  · split at run
    · cases run
    · next tried =>
      cases run
      obtain ⟨core, h, retrieved, _, out, rfl, rfl⟩ := tryAllocateFromArena_some tried
      refine Path.arena core h retrieved ?_ useArena.1 useArena.2 tried
      unfold arenaHandout
      rw [if_pos useArena, tried]
      simp only [out, Option.map_some]
    · next result' tried =>
      simp only [Option.some.injEq, Prod.mk.injEq] at run
      refine Path.own a ?_ (allocatePrivate_path (Prod.ext run.1 run.2.1))
      unfold arenaHandout
      rw [if_pos useArena, tried]
      cases result' with
      | none => rfl
      | some asked =>
        simp only [tryAllocateFromArena_none tried asked.1 asked.2 rfl, Option.map_none]
  · simp only [Option.some.injEq, Prod.mk.injEq] at run
    refine Path.own a ?_ (allocatePrivate_path (Prod.ext run.1 run.2.1))
    unfold arenaHandout
    rw [if_neg useArena]

theorem Path.sound {a : Allocation} (path : Path p sur cache cache' req a)
    (adjusted : req.Adjusted p) (sane : sur.Sane p) (ok : cache.Ok p) : a.Sound p req := by
  cases path with
  | arena core h retrieved served uses small run =>
    exact tryAllocateFromArena_sound adjusted sane small (sane.word uses) run
  | own a notServed path =>
    cases path with
    | cache maxPages headerPos entry found retrieved =>
      obtain ⟨entryOk, fits, exact⟩ := retrieved.sound adjusted ok
      exact ⟨entryOk.range.of_same rfl rfl, fits, exact, trivial, entryOk.range.stop_eq⟩
    | map mapBase notFound maps => exact mapAllocation_sound adjusted (sane.mmap _ _ maps)

/-- `allocate` only takes entries out of the cache. -/
theorem allocate_shrinks {a : Option Allocation} {result : Option (Nat × RetrieveResult)}
    (run : allocate p sur cache req = some (a, cache', result)) : cache'.Shrinks cache := by
  unfold allocate at run
  dsimp only at run
  split_ifs at run
  · split at run
    · cases run
    · cases run
      exact Cache.Shrinks.refl cache
    · cases run
      exact allocatePrivate_shrinks rfl
  · cases run
    exact allocatePrivate_shrinks rfl

theorem allocate_ok (ok : cache.Ok p) {a : Option Allocation}
    {result : Option (Nat × RetrieveResult)}
    (run : allocate p sur cache req = some (a, cache', result)) : cache'.Ok p :=
  Cache.ok_iff_each.mpr ((Cache.ok_iff_each.mp ok).of_shrinks (allocate_shrinks run))

/-- Every path of `allocate` hands out sound blocks only. -/
theorem allocate_sound (valid : req.Valid p) (sane : sur.Sane p) (ok : cache.Ok p)
    {a : Allocation} {result : Option (Nat × RetrieveResult)}
    (run : allocate p sur cache req = some (some a, cache', result)) : a.Sound p (adjust p req) :=
  (allocate_path run).sound (adjust_adjusted valid) sane ok

end Paths

/-- The cache and the blocks in use of one process. -/
structure Heap where
  cache : Cache
  inUse : List LargeBlock

namespace Heap

def withBytes (block : LargeBlock) (bytes : Nat → UInt8) : LargeBlock :=
  { block with memMap := { block.memMap with bytes := bytes } }

inductive Step (p : Platform) (config : CacheConfig) : Heap → Heap → Prop
  | allocate {h : Heap} (sur : Surroundings) (req : Request) (a : Option Allocation)
      (cache' : Cache) (result : Option (Nat × RetrieveResult)) (sane : sur.Sane p)
      (valid : req.Valid p)
      (run : MapAllocator.allocate p sur h.cache req = some (a, cache', result)) :
      Step p config h ⟨cache', h.inUse ++ (a.map Allocation.block).toList⟩
  | write {h : Heap} (place : Nat) (block : LargeBlock) (bytes : Nat → UInt8)
      (get : h.inUse[place]? = some block) :
      Step p config h ⟨h.cache, h.inUse.set place (withBytes block bytes)⟩
  | deallocate {h : Heap} (place : Nat) (block : LargeBlock) (pool : Pool) (arenas : Nat → Arena)
      (pid : Nat) (cpu : Option Nat) (opts : Options) (now : Nat) (cache' : Cache)
      (get : h.inUse[place]? = some block) (clock : 0 < now)
      (run : MapAllocator.release p config opts now h.cache block
        (MapAllocator.route pool arenas pid cpu (h.cache.canCache block.commitSize) block) =
          some cache') :
      Step p config h ⟨cache', h.inUse.eraseIdx place⟩
  | setOption {h : Heap} (o : CacheOption) (value : Int) :
      Step p config h ⟨(h.cache.setOption config p o value).2, h.inUse⟩
  | releaseToOS {h : Heap} : Step p config h ⟨h.cache.releaseToOS, h.inUse⟩
  | disableMemoryTagging {h : Heap} :
      Step p config h ⟨h.cache.disableMemoryTagging.1, h.inUse⟩

/-- A heap after `init`. -/
def Initial (config : CacheConfig) (h : Heap) : Prop :=
  ∃ releaseToOsInterval, h = ⟨Cache.init config releaseToOsInterval, []⟩

def system (p : Platform) (config : CacheConfig) : Lib.System Heap :=
  ⟨Initial config, Step p config⟩

/-- Blocks in use and entries of the cache all lie in their mappings. -/
structure Sound (p : Platform) (h : Heap) : Prop where
  cache : h.cache.Ok p
  inUse : ∀ block ∈ h.inUse, InMapping p block.commitBase block.commitSize block.memMap

theorem release_ok {p : Platform} {config : CacheConfig} {opts : Options} {now : Nat}
    {cache cache' : Cache} {block : LargeBlock} {route : MapAllocator.Route} (ok : cache.Ok p)
    (clock : 0 < now) (range : InMapping p block.commitBase block.commitSize block.memMap)
    (run : MapAllocator.release p config opts now cache block route = some cache') :
    cache'.Ok p := by
  cases route with
  | cache =>
    unfold MapAllocator.release at run
    dsimp only at run
    split at run
    · cases run
    · next stored =>
      cases run
      exact ok.store _ clock range stored
  | keep => cases run; exact ok
  | store => cases run; exact ok
  | unmap => cases run; exact ok

theorem Step.sound {p : Platform} {config : CacheConfig} {h h' : Heap} (sound : h.Sound p)
    (step : Step p config h h') : h'.Sound p := by
  cases step with
  | allocate sur req a cache' result sane valid run =>
    refine ⟨allocate_ok sound.cache run, ?_⟩
    intro block member
    rcases List.mem_append.mp member with old | new
    · exact sound.inUse block old
    · cases a with
      | none => cases new
      | some a =>
        have same : block = a.block := List.mem_singleton.mp new
        rw [same]
        exact (allocate_sound valid sane sound.cache run).range
  | write place block bytes get =>
    refine ⟨sound.cache, ?_⟩
    intro other member
    rcases List.mem_or_eq_of_mem_set member with old | rfl
    · exact sound.inUse other old
    · exact (sound.inUse block (List.mem_of_getElem? get)).of_same rfl rfl
  | deallocate place block pool arenas pid cpu opts now cache' get clock run =>
    refine ⟨release_ok sound.cache clock (sound.inUse block (List.mem_of_getElem? get)) run, ?_⟩
    intro other member
    exact sound.inUse other ((List.eraseIdx_sublist _ _).subset member)
  | setOption o value => exact ⟨sound.cache.setOption config o value, sound.inUse⟩
  | releaseToOS => exact ⟨sound.cache.releaseOlderThan _, sound.inUse⟩
  | disableMemoryTagging => exact ⟨sound.cache.disableMemoryTagging, sound.inUse⟩

/-- In every state of every run. -/
theorem reachable_sound {p : Platform} {config : CacheConfig} {h : Heap}
    (reached : (system p config).Reachable h) : h.Sound p := by
  apply reached.invariant
  · rintro s ⟨interval, rfl⟩
    refine ⟨Cache.init_ok config interval, ?_⟩
    intro block member
    exact absurd member List.not_mem_nil
  · intro s s' sound step
    exact step.sound sound

end Heap

end Scudo.Secondary
