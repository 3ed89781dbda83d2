import Scudo.Secondary.SlotRuns

/-!
`MapAllocatorCache` under any number of threads. `canCache` and `setOption` do not take the lock, so
every load of `MaxEntriesCount` is a step of its own: the one of `canCache`, and those of the
eviction loop, which a `store` makes while it has the lock.
-/

namespace Scudo.Secondary
open Scudo.Lib

/-- Where a thread is between `canCache` and the end of `store`. -/
inductive StorePhase where
  | idle
  /-- `canCache` has loaded a positive `MaxEntriesCount`. -/
  | counted (size : Nat)
  /-- `canCache` has returned true. -/
  | checked (size : Nat)
  /-- `store` has read the release interval. -/
  | started (size : Nat) (interval : Int)
  /-- `store` has the lock and is about to test the condition of its eviction loop. -/
  | evicting (entry : CachedBlock) (interval : Int) (time evicted : Nat)
  /-- The lock is given back; the release pass comes next. -/
  | releasing (interval : Int) (time : Nat)
  /-- The loop went on with an empty list, or `insert` found no available slot. -/
  | crashed

namespace StorePhase

/-- A `store` relies on the `canCache` before it until its eviction loop ends. -/
def Pending : StorePhase → Prop
  | .counted _ | .checked _ | .started _ _ | .evicting _ _ _ _ => True
  | _ => False

/-- The thread has the lock of the cache. -/
def Locks : StorePhase → Prop
  | .evicting _ _ _ _ => True
  | _ => False

end StorePhase

/-- The release pass that ends a `store`, after it has given the lock back. -/
def SlotCache.releaseAfterStore (config : CacheConfig) (c : SlotCache) (interval : Int)
    (time : Nat) : SlotCache :=
  if 0 ≤ interval then
    c.releaseOlderThan config (wsub 64 time (wrap 64 (interval.toNat * 1000000)))
  else c

/-- `clock` is the value that the last `store` has read under the lock. -/
structure CacheThreads where
  cache : SlotCache
  phase : Nat → StorePhase
  clock : Nat

namespace CacheThreads

def move (s : CacheThreads) (t : Nat) (phase : StorePhase) : CacheThreads :=
  { s with phase := Function.update s.phase t phase }

def setCache (s : CacheThreads) (cache : SlotCache) : CacheThreads := { s with cache := cache }

/-- No thread has the lock. -/
def Unlocked (s : CacheThreads) : Prop := ∀ t, ¬(s.phase t).Locks

theorem Unlocked.of_others {s : CacheThreads} (t : Nat)
    (others : ∀ r, r ≠ t → s.phase r = .idle) (own : ¬(s.phase t).Locks) : s.Unlocked := by
  intro r locks
  by_cases same : r = t
  · exact own (same ▸ locks)
  · rw [others r same] at locks
    exact locks

/-- What `store` does after it has dealt with the quarantine. -/
def afterQuarantine (interval : Int) (now : Nat) (unmapped : Bool) :
    Option CachedBlock → StorePhase
  | some entry => .evicting entry interval now 0
  | none => if unmapped then .releasing interval now else .idle

/-- One step of one thread. The arguments of `begin` are those of `store` and the options it was
given. -/
inductive Step (p : Platform) (config : CacheConfig) : CacheThreads → CacheThreads → Prop
  | count {s : CacheThreads} (t size : Nat) (found : s.phase t = .idle)
      (word : size < 2 ^ p.word.bits) (positive : s.cache.rest.maxEntriesCount ≠ 0) :
      Step p config s (s.move t (.counted size))
  | check {s : CacheThreads} (t size : Nat) (found : s.phase t = .counted size)
      (small : size ≤ s.cache.rest.maxEntrySize) : Step p config s (s.move t (.checked size))
  | refuse {s : CacheThreads} (t size : Nat) (found : s.phase t = .counted size)
      (large : s.cache.rest.maxEntrySize < size) : Step p config s (s.move t .idle)
  | start {s : CacheThreads} (t size : Nat) (found : s.phase t = .checked size) :
      Step p config s (s.move t (.started size s.cache.rest.releaseToOsIntervalMs))
  | begin {s : CacheThreads} (t size : Nat) (interval : Int) (opts : Options)
      (now commitBase blockBegin : Nat) (memMap : MemMap)
      (found : s.phase t = .started size interval) (unlocked : s.Unlocked)
      (time : now < 2 ^ 64) (mapped : commitBase ≠ 0) (rest : Cache) (entry : Option CachedBlock)
      (unmap : Option MemMap)
      (run : SlotCache.beginStore config opts s.cache.rest
        (Cache.storedEntry opts interval now commitBase size blockBegin memMap) =
          (rest, entry, unmap)) :
      Step p config s { s with
        cache := ⟨rest, s.cache.slots⟩
        phase := Function.update s.phase t (afterQuarantine interval now unmap.isSome entry)
        clock := now }
  | evict {s : CacheThreads} (t : Nat) (entry : CachedBlock) (interval : Int) (time evicted : Nat)
      (found : s.phase t = .evicting entry interval time evicted)
      (full : s.cache.rest.maxEntriesCount ≤ s.cache.slots.lruEntries.size)
      (occupied : s.cache.slots.lruEntries.size ≠ 0) (slots : Slots)
      (run : s.cache.slots.remove s.cache.slots.lruEntries.last = some slots) :
      Step p config s ((s.setCache ⟨s.cache.rest, slots⟩).move t
        (.evicting entry interval time (evicted + 1)))
  | crash {s : CacheThreads} (t : Nat) (entry : CachedBlock) (interval : Int) (time evicted : Nat)
      (found : s.phase t = .evicting entry interval time evicted)
      (full : s.cache.rest.maxEntriesCount ≤ s.cache.slots.lruEntries.size)
      (broken : s.cache.slots.lruEntries.size = 0 ∨
        s.cache.slots.remove s.cache.slots.lruEntries.last = none) :
      Step p config s (s.move t .crashed)
  | insert {s : CacheThreads} (t : Nat) (entry : CachedBlock) (interval : Int) (time evicted : Nat)
      (found : s.phase t = .evicting entry interval time evicted)
      (room : s.cache.slots.lruEntries.size < s.cache.rest.maxEntriesCount) (slots : Slots)
      (run : s.cache.slots.insert entry = some slots) :
      Step p config s ((s.setCache ⟨s.cache.rest.noteTime entry.time, slots⟩).move t
        (.releasing interval time))
  | noRoom {s : CacheThreads} (t : Nat) (entry : CachedBlock) (interval : Int) (time evicted : Nat)
      (found : s.phase t = .evicting entry interval time evicted)
      (room : s.cache.slots.lruEntries.size < s.cache.rest.maxEntriesCount)
      (run : s.cache.slots.insert entry = none) : Step p config s (s.move t .crashed)
  | release {s : CacheThreads} (t : Nat) (interval : Int) (time : Nat)
      (found : s.phase t = .releasing interval time) (unlocked : s.Unlocked) :
      Step p config s ((s.setCache (s.cache.releaseAfterStore config interval time)).move t .idle)
  | retrieve {s : CacheThreads} (maxAllowedFragmentedPages size alignment headersSize : Nat)
      (unlocked : s.Unlocked) (out : Option (CachedBlock × Nat)) (cache : SlotCache)
      (run : s.cache.retrieve p maxAllowedFragmentedPages size alignment headersSize =
        some (out, cache)) : Step p config s (s.setCache cache)
  | releaseToOS {s : CacheThreads} (unlocked : s.Unlocked) :
      Step p config s (s.setCache (s.cache.releaseOlderThan config (2 ^ 64 - 1)))
  | setOption {s : CacheThreads} (o : CacheOption) (value : Int) :
      Step p config s
        (s.setCache ⟨(s.cache.rest.setOption config p o value).2, s.cache.slots⟩)

/-- After `init`; the links are those of fresh memory. -/
def Initial (config : CacheConfig) (s : CacheThreads) : Prop :=
  (∃ releaseToOsInterval links, s.cache = SlotCache.init config releaseToOsInterval links) ∧
    ∀ t, s.phase t = .idle

def system (p : Platform) (config : CacheConfig) : System CacheThreads :=
  ⟨Initial config, Step p config⟩

end CacheThreads

/-! ### What each operation keeps of the entry array -/

namespace SlotCache

/-- The two lists share out the array, the listed slots hold entries and the others do not. -/
structure Intact (config : CacheConfig) (c : SlotCache) (live free : List Nat) : Prop where
  tracks : c.slots.Tracks config.entriesArraySize live free
  count_le : c.rest.maxEntriesCount ≤ config.entriesArraySize
  length : c.rest.quarantine.length = config.quarantineSize
  valid : ∀ slot ∈ live, (c.slots.entries slot).isValid = true
  unused : ∀ slot ∈ free, (c.slots.entries slot).isValid = false

section Operations

variable {p : Platform} {config : CacheConfig} {c c' : SlotCache} {live free : List Nat}

/-- Another state of the fields outside the array. -/
theorem Intact.of_rest (intact : c.Intact config live free) {rest : Cache}
    (count : rest.maxEntriesCount ≤ config.entriesArraySize)
    (length : rest.quarantine.length = config.quarantineSize) :
    Intact config ⟨rest, c.slots⟩ live free :=
  ⟨intact.tracks, count, length, intact.valid, intact.unused⟩

/-- Removing a listed slot leaves the other entries. -/
theorem Intact.remove {left right : List Nat} {slot : Nat}
    (intact : c.Intact config (left ++ slot :: right) free) {slots : Slots}
    (run : c.slots.remove slot = some slots) :
    Intact config ⟨c.rest, slots⟩ (left ++ right) (slot :: free) ∧
      ∀ other ∈ left ++ right, slots.entries other = c.slots.entries other := by
  obtain ⟨slots', run', tracks', entries⟩ := intact.tracks.remove
  obtain rfl : slots' = slots := by
    rw [run] at run'
    exact (Option.some.inj run').symm
  have nodup := tracks'.nodup
  have apart : ∀ other ∈ left ++ right, other ≠ slot := by
    intro other member same
    exact (List.nodup_append.mp nodup).2.2 other member slot List.mem_cons_self same
  have kept : ∀ other ∈ left ++ right, slots'.entries other = c.slots.entries other := by
    intro other member
    rw [entries, Function.update_of_ne (apart other member)]
  refine ⟨⟨tracks', intact.count_le, intact.length, ?_, ?_⟩, kept⟩
  · intro other member
    rw [kept other member]
    apply intact.valid
    rcases List.mem_append.mp member with before | behind
    · simp [before]
    · simp [behind]
  · intro other member
    rw [entries]
    rcases List.mem_cons.mp member with rfl | old
    · rw [Function.update_self]
      rfl
    · have differ : other ≠ slot := by
        rintro rfl
        have rest := (List.nodup_append.mp nodup).2.1
        exact (List.nodup_cons.mp rest).1 old
      rw [Function.update_of_ne differ]
      exact intact.unused other old

/-- The last slot of a list that is not empty can be removed. -/
theorem Intact.last (intact : c.Intact config live free)
    (occupied : c.slots.lruEntries.size ≠ 0) :
    ∃ left slots, live = left ++ [c.slots.lruEntries.last] ∧
      c.slots.remove c.slots.lruEntries.last = some slots ∧
      slots.lruEntries.size + 1 = c.slots.lruEntries.size := by
  have size := intact.tracks.lru.size
  have last := intact.tracks.lru.last
  have tracks := intact.tracks
  rcases List.eq_nil_or_concat' live with rfl | ⟨left, slot, rfl⟩
  · exact absurd size occupied
  · rw [List.getLastD_concat] at last
    rw [last]
    obtain ⟨slots, run, tracks', _⟩ := tracks.remove
    rw [List.append_nil] at tracks'
    refine ⟨left, slots, rfl, run, ?_⟩
    rw [tracks'.lru.size, size, List.length_append, List.length_singleton]

theorem Intact.evict (intact : c.Intact config live free)
    (occupied : c.slots.lruEntries.size ≠ 0) {slots : Slots}
    (run : c.slots.remove c.slots.lruEntries.last = some slots) :
    ∃ left free', Intact config ⟨c.rest, slots⟩ left free' ∧ left ⊆ live ∧
      (∀ other ∈ left, slots.entries other = c.slots.entries other) ∧
      slots.lruEntries.size + 1 = c.slots.lruEntries.size := by
  obtain ⟨left, slots', shape, run', size⟩ := intact.last occupied
  obtain rfl : slots' = slots := by
    rw [run] at run'
    exact (Option.some.inj run').symm
  rw [shape] at intact
  obtain ⟨intact', kept⟩ := intact.remove run
  rw [List.append_nil] at intact' kept
  refine ⟨left, _, intact', ?_, kept, size⟩
  rw [shape]
  exact List.subset_append_left _ _

/-- With room below `MaxEntriesCount` there is an available slot. -/
theorem Intact.room (intact : c.Intact config live free)
    (room : c.slots.lruEntries.size < c.rest.maxEntriesCount) (entry : CachedBlock) :
    ∃ slots, c.slots.insert entry = some slots := by
  have size := intact.tracks.lru.size
  have total := intact.tracks.length_eq
  have count := intact.count_le
  have tracks := intact.tracks
  cases free with
  | nil =>
    rw [List.length_nil] at total
    omega
  | cons slot rest =>
    obtain ⟨slots, run, _⟩ := Slots.Tracks.insert tracks entry
    exact ⟨slots, run⟩

theorem Intact.insert (intact : c.Intact config live free) {entry : CachedBlock}
    (valid : entry.isValid = true) {slots : Slots} (run : c.slots.insert entry = some slots) :
    ∃ slot free', Intact config ⟨c.rest, slots⟩ (slot :: live) free' ∧
      slots.entries slot = entry ∧
      ∀ other ∈ live, slots.entries other = c.slots.entries other := by
  have tracks := intact.tracks
  cases free with
  | nil =>
    have first : c.slots.availEntries.first = 0 := tracks.avail.first
    unfold Slots.insert at run
    rw [if_pos first] at run
    cases run
  | cons slot rest =>
    obtain ⟨slots', run', tracks', entries⟩ := Slots.Tracks.insert tracks entry
    obtain rfl : slots' = slots := by
      rw [run] at run'
      exact (Option.some.inj run').symm
    have nodup := tracks'.nodup
    rw [List.cons_append, List.nodup_cons] at nodup
    have kept : ∀ other, other ≠ slot → slots'.entries other = c.slots.entries other := by
      intro other differ
      rw [entries, Function.update_of_ne differ]
    have apart : ∀ other ∈ live ++ rest, other ≠ slot := by
      rintro other member rfl
      exact nodup.1 member
    have new : slots'.entries slot = entry := by
      rw [entries, Function.update_self]
    refine ⟨slot, rest, ⟨tracks', intact.count_le, intact.length, ?_, ?_⟩, new, ?_⟩
    · intro other member
      rcases List.mem_cons.mp member with rfl | old
      · rw [new]
        exact valid
      · rw [kept other (apart other (List.mem_append_left _ old))]
        exact intact.valid other old
    · intro other member
      rw [kept other (apart other (List.mem_append_right _ member))]
      exact intact.unused other (List.mem_cons_of_mem _ member)
    · intro other member
      exact kept other (apart other (List.mem_append_left _ member))

/-- `retrieve` takes at most one slot out of the list. -/
theorem Intact.retrieve (intact : c.Intact config live free)
    {maxAllowedFragmentedPages size alignment headersSize : Nat}
    {out : Option (CachedBlock × Nat)}
    (run : c.retrieve p maxAllowedFragmentedPages size alignment headersSize = some (out, c')) :
    ∃ live' free', c'.Intact config live' free' ∧ live' ⊆ live ∧
      (∀ other ∈ live', c'.slots.entries other = c.slots.entries other) ∧
      c'.slots.lruEntries.size ≤ c.slots.lruEntries.size ∧
      c'.rest.maxEntriesCount = c.rest.maxEntriesCount ∧
      c'.rest.oldestTime = c.rest.oldestTime := by
  have same : ∀ rest : Cache, rest.maxEntriesCount = c.rest.maxEntriesCount →
      rest.quarantine = c.rest.quarantine → rest.oldestTime = c.rest.oldestTime →
      ∃ live' free', Intact config ⟨rest, c.slots⟩ live' free' ∧ live' ⊆ live ∧
        (∀ other ∈ live', c.slots.entries other = c.slots.entries other) ∧
        c.slots.lruEntries.size ≤ c.slots.lruEntries.size ∧
        rest.maxEntriesCount = c.rest.maxEntriesCount ∧
        rest.oldestTime = c.rest.oldestTime := by
    intro rest count quarantine oldest
    exact ⟨live, free, intact.of_rest (count ▸ intact.count_le) (quarantine ▸ intact.length),
      List.Subset.refl _, fun _ _ => rfl, le_rfl, count, oldest⟩
  unfold SlotCache.retrieve at run
  dsimp only at run
  rw [intact.tracks.lru_eq] at run
  split_ifs at run with none
  · cases run
    exact same _ rfl rfl rfl
  · split at run
    · cases run
      exact same _ rfl rfl rfl
    · next candidate scanned =>
      split at run
      · cases run
        exact same _ rfl rfl rfl
      · next slot found =>
        split at run
        · cases run
        · next slots removed =>
          cases run
          obtain ⟨left, right, shape⟩ := List.append_of_mem (List.mem_of_getElem? found)
          rw [shape] at intact
          obtain ⟨intact', kept⟩ := intact.remove removed
          have before := intact.tracks.lru.size
          have after : slots.lruEntries.size = (left ++ right).length := intact'.tracks.lru.size
          refine ⟨left ++ right, _, intact'.of_rest intact.count_le intact.length, ?_, kept, ?_,
            rfl, rfl⟩
          · rw [shape]
            intro other member
            rcases List.mem_append.mp member with inLeft | inRight
            · simp [inLeft]
            · simp [inRight]
          · change slots.lruEntries.size ≤ c.slots.lruEntries.size
            simp only [List.length_append, List.length_cons] at before after
            omega

/-- `releaseIfOlderThan` never makes an entry valid or invalid, and leaves it alone if it is not. -/
theorem releaseSlots_isValid (time : Nat) (order : List Nat) (entries : Nat → CachedBlock)
    (oldestTime slot : Nat) :
    ((releaseSlots time order entries oldestTime).1 slot).isValid = (entries slot).isValid :=
  releaseSlots_keeps CachedBlock.isValid (fun _ _ _ => CachedBlock.releaseIfOlderThan_isValid)
    time order entries oldestTime slot

theorem Intact.releaseOlderThan (intact : c.Intact config live free) (time : Nat) :
    (c.releaseOlderThan config time).Intact config live free ∧
      (c.releaseOlderThan config time).slots.lruEntries.size = c.slots.lruEntries.size ∧
      (c.releaseOlderThan config time).rest.maxEntriesCount = c.rest.maxEntriesCount := by
  unfold SlotCache.releaseOlderThan
  split_ifs with nothing
  · exact ⟨intact, rfl, rfl⟩
  · have length := (CacheRun.releaseAll_quarantineOf time c.rest.quarantine 0).2
    refine ⟨⟨⟨intact.tracks.lru, intact.tracks.avail, intact.tracks.all⟩, intact.count_le,
      length.trans intact.length, ?_, ?_⟩, rfl, rfl⟩
    · intro slot member
      exact (releaseSlots_isValid ..).trans (intact.valid slot member)
    · intro slot member
      exact (releaseSlots_isValid ..).trans (intact.unused slot member)

theorem Intact.releaseAfterStore (intact : c.Intact config live free) (interval : Int)
    (time : Nat) :
    (c.releaseAfterStore config interval time).Intact config live free ∧
      (c.releaseAfterStore config interval time).rest.maxEntriesCount = c.rest.maxEntriesCount := by
  unfold SlotCache.releaseAfterStore
  split_ifs
  · obtain ⟨intact', _, count⟩ := intact.releaseOlderThan
      (wsub 64 time (wrap 64 (interval.toNat * 1000000)))
    exact ⟨intact', count⟩
  · exact ⟨intact, rfl⟩

/-- `setOption` leaves all but the three options. -/
theorem setOption_rest (config : CacheConfig) (p : Platform) (cache : Cache) (o : CacheOption)
    (value : Int) :
    (cache.setOption config p o value).2.quarantine = cache.quarantine ∧
      (cache.setOption config p o value).2.oldestTime = cache.oldestTime ∧
      (cache.maxEntriesCount ≤ config.entriesArraySize →
        (cache.setOption config p o value).2.maxEntriesCount ≤ config.entriesArraySize) := by
  unfold Cache.setOption
  cases o with
  | releaseInterval => exact ⟨rfl, rfl, id⟩
  | maxCacheEntriesCount =>
    dsimp only
    split_ifs with negative
    · exact ⟨rfl, rfl, id⟩
    · exact ⟨rfl, rfl, fun _ => min_le_right _ _⟩
  | maxCacheEntrySize => exact ⟨rfl, rfl, id⟩

theorem noteTime_rest (cache : Cache) (time : Nat) :
    (cache.noteTime time).maxEntriesCount = cache.maxEntriesCount ∧
      (cache.noteTime time).quarantine = cache.quarantine := by
  unfold Cache.noteTime
  split_ifs <;> exact ⟨rfl, rfl⟩

/-- `beginStore` keeps `MaxEntriesCount` and the size of the quarantine, and goes on with a valid
entry. -/
theorem beginStore_rest {opts : Options} {cache rest : Cache} {entry : CachedBlock}
    {out : Option CachedBlock} {unmap : Option MemMap}
    (length : cache.quarantine.length = config.quarantineSize) (valid : entry.isValid = true)
    (run : beginStore config opts cache entry = (rest, out, unmap)) :
    rest.maxEntriesCount = cache.maxEntriesCount ∧
      rest.quarantine.length = config.quarantineSize ∧
      ∀ kept, out = some kept → kept.isValid = true := by
  unfold beginStore at run
  split_ifs at run with disabled quarantines
  · cases run
    exact ⟨rfl, length, nofun⟩
  · cases run
    unfold Cache.quarantineEntry
    dsimp only
    split_ifs with occupied
    · refine ⟨(noteTime_rest _ _).1, ?_, ?_⟩
      · rw [(noteTime_rest _ _).2]
        exact (List.length_set ..).trans length
      · rintro kept same
        cases same
        exact occupied
    · exact ⟨rfl, (List.length_set ..).trans length, nofun⟩
  · cases run
    refine ⟨rfl, length, ?_⟩
    rintro kept same
    cases same
    exact valid

theorem init_intact (config : CacheConfig) (releaseToOsInterval : Int) (links : Links) :
    (init config releaseToOsInterval links).Intact config [] (List.range' 1 config.entriesArraySize)
    where
  tracks := Slots.init_tracks config.entriesArraySize links
  count_le := min_le_right _ _
  length := List.length_replicate
  valid := nofun
  unused := fun _ _ => rfl

end Operations

end SlotCache

/-! ### What holds in every run -/

namespace CacheThreads

/-- A `store` in its loop has a valid entry, and the entries it evicted were in the array. -/
def PhaseOk (config : CacheConfig) (c : SlotCache) : StorePhase → Prop
  | .evicting entry _ _ evicted =>
      entry.isValid = true ∧ evicted + c.slots.lruEntries.size ≤ config.entriesArraySize
  | _ => True

structure Sound (config : CacheConfig) (s : CacheThreads) : Prop where
  intact : ∃ live free, s.cache.Intact config live free
  phases : ∀ t, PhaseOk config s.cache (s.phase t)
  exclusive : ∀ t r, (s.phase t).Locks → (s.phase r).Locks → t = r

section Runs

variable {p : Platform} {config : CacheConfig} {s s' : CacheThreads}

theorem forall_update {P : StorePhase → Prop} {phase : Nat → StorePhase} {t : Nat}
    {new : StorePhase} (others : ∀ r, r ≠ t → P (phase r)) (own : P new) :
    ∀ r, P (Function.update phase t new r) := by
  intro r
  by_cases same : r = t
  · rw [same, Function.update_self]
    exact own
  · rw [Function.update_of_ne same]
    exact others r same

/-- Fewer entries in the list do not hurt a `store` in its loop. -/
theorem PhaseOk.mono {c c' : SlotCache} {phase : StorePhase} (ok : PhaseOk config c phase)
    (fewer : c'.slots.lruEntries.size ≤ c.slots.lruEntries.size) : PhaseOk config c' phase := by
  cases phase with
  | evicting entry interval time evicted =>
    obtain ⟨valid, bound⟩ := ok
    exact ⟨valid, by omega⟩
  | _ => trivial

theorem PhaseOk.of_not_locks {c : SlotCache} {phase : StorePhase} (free : ¬phase.Locks) :
    PhaseOk config c phase := by
  cases phase with
  | evicting entry interval time evicted => exact absurd trivial free
  | _ => trivial

/-- A thread that did not have the lock and does not take it leaves at most one owner. -/
theorem exclusive_move {t : Nat} {new : StorePhase} {phase : Nat → StorePhase}
    (exclusive : ∀ t r, (phase t).Locks → (phase r).Locks → t = r)
    (less : new.Locks → (phase t).Locks) :
    ∀ a b, (Function.update phase t new a).Locks → (Function.update phase t new b).Locks →
      a = b := by
  have back : ∀ a, (Function.update phase t new a).Locks → (phase a).Locks := by
    intro a locks
    by_cases same : a = t
    · rw [same, Function.update_self] at locks
      rw [same]
      exact less locks
    · rwa [Function.update_of_ne same] at locks
  intro a b first second
  exact exclusive a b (back a first) (back b second)

theorem exclusive_take {t : Nat} {new : StorePhase} {phase : Nat → StorePhase}
    (unlocked : ∀ t, ¬(phase t).Locks) :
    ∀ a b, (Function.update phase t new a).Locks → (Function.update phase t new b).Locks →
      a = b := by
  have own : ∀ a, (Function.update phase t new a).Locks → a = t := by
    intro a locks
    by_contra differ
    rw [Function.update_of_ne differ] at locks
    exact unlocked a locks
  intro a b first second
  rw [own a first, own b second]

/-- A step that moves one thread between phases without the lock. -/
theorem Sound.move (sound : s.Sound config) {t : Nat} {new : StorePhase} (free : ¬new.Locks) :
    (s.move t new).Sound config where
  intact := sound.intact
  phases := forall_update (fun r _ => sound.phases r) (PhaseOk.of_not_locks free)
  exclusive := exclusive_move sound.exclusive fun locks => absurd locks free

/-- Every step keeps the array and its lists. -/
theorem Sound.step (sound : s.Sound config) (step : Step p config s s') : s'.Sound config := by
  obtain ⟨live, free, intact⟩ := sound.intact
  cases step with
  | count t size found word positive => exact sound.move id
  | check t size found small => exact sound.move id
  | refuse t size found large => exact sound.move id
  | start t size found => exact sound.move id
  | begin t size interval opts now commitBase blockBegin memMap found unlocked time mapped rest entry
      unmap run =>
    have valid : (Cache.storedEntry opts interval now commitBase size blockBegin memMap).isValid =
        true := CacheRun.storedEntry_isValid opts interval mapped
    obtain ⟨count, length, kept⟩ := SlotCache.beginStore_rest intact.length valid run
    have intact' := intact.of_rest (count ▸ intact.count_le) length
    have own : PhaseOk config ⟨rest, s.cache.slots⟩
        (afterQuarantine interval now unmap.isSome entry) := by
      cases entry with
      | none =>
        unfold afterQuarantine
        split_ifs <;> trivial
      | some entry =>
        have total := intact.tracks.length_eq
        have size := intact.tracks.lru.size
        refine ⟨kept entry rfl, ?_⟩
        simp only
        omega
    exact ⟨⟨live, free, intact'⟩,
      forall_update (fun r _ => PhaseOk.of_not_locks (unlocked r)) own, exclusive_take unlocked⟩
  | evict t entry interval time evicted found full occupied slots run =>
    obtain ⟨left, free', intact', _, _, size⟩ := intact.evict occupied run
    have ok := sound.phases t
    rw [found] at ok
    refine ⟨⟨left, free', intact'⟩, ?_, ?_⟩
    · apply forall_update
      · intro r _
        refine (sound.phases r).mono ?_
        change slots.lruEntries.size ≤ s.cache.slots.lruEntries.size
        omega
      · refine ⟨ok.1, ?_⟩
        have bound := ok.2
        change evicted + 1 + slots.lruEntries.size ≤ config.entriesArraySize
        omega
    · refine exclusive_move sound.exclusive fun _ => ?_
      change (s.phase t).Locks
      rw [found]
      trivial
  | crash t entry interval time evicted found full broken => exact sound.move id
  | insert t entry interval time evicted found room slots run =>
    have ok := sound.phases t
    rw [found] at ok
    obtain ⟨slot, free', intact', _, _⟩ := intact.insert ok.1 run
    obtain ⟨count, quarantine⟩ := SlotCache.noteTime_rest s.cache.rest entry.time
    have locks : (s.phase t).Locks := by
      rw [found]
      trivial
    refine ⟨⟨_, _, intact'.of_rest (count ▸ intact.count_le) (quarantine ▸ intact.length)⟩, ?_, ?_⟩
    · apply forall_update
      · intro r differ
        exact PhaseOk.of_not_locks fun second => differ (sound.exclusive r t second locks)
      · trivial
    · exact exclusive_move sound.exclusive fun _ => locks
  | noRoom t entry interval time evicted found room run => exact sound.move id
  | release t interval time found unlocked =>
    have kept : Sound config (s.setCache (s.cache.releaseAfterStore config interval time)) :=
      ⟨⟨live, free, (intact.releaseAfterStore interval time).1⟩,
        fun r => PhaseOk.of_not_locks (unlocked r), sound.exclusive⟩
    exact kept.move id
  | retrieve maxAllowedFragmentedPages size alignment headersSize unlocked out cache run =>
    obtain ⟨live', free', intact', _⟩ := intact.retrieve run
    exact ⟨⟨live', free', intact'⟩, fun r => PhaseOk.of_not_locks (unlocked r), sound.exclusive⟩
  | releaseToOS unlocked =>
    obtain ⟨intact', _, _⟩ := intact.releaseOlderThan (2 ^ 64 - 1)
    exact ⟨⟨live, free, intact'⟩, fun r => PhaseOk.of_not_locks (unlocked r), sound.exclusive⟩
  | setOption o value =>
    obtain ⟨quarantine, _, count⟩ := SlotCache.setOption_rest config p s.cache.rest o value
    exact ⟨⟨live, free, intact.of_rest (count intact.count_le) (quarantine ▸ intact.length)⟩,
      fun r => (sound.phases r).mono le_rfl, sound.exclusive⟩

theorem Initial.sound (initial : Initial config s) : s.Sound config := by
  obtain ⟨⟨releaseToOsInterval, links, cache⟩, idle⟩ := initial
  refine ⟨⟨_, _, cache ▸ SlotCache.init_intact config releaseToOsInterval links⟩, ?_, ?_⟩
  · intro t
    rw [idle t]
    trivial
  · intro t r locks
    rw [idle t] at locks
    exact locks.elim

theorem reachable_sound (reached : (system p config).Reachable s) : s.Sound config := by
  apply reached.invariant
  · intro s initial
    exact Initial.sound initial
  · intro s s' sound step
    exact sound.step step

end Runs

end CacheThreads

end Scudo.Secondary
