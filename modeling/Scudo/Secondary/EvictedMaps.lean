import Scudo.Vector
import Scudo.Secondary.CacheThreads

/-!
The vector in which `store` keeps the mappings of the entries that it evicts, until it can unmap
them outside the lock.
-/

namespace Scudo.Secondary
open Scudo.Lib

/-- The size of a `MemMapT`: the base and the capacity of the mapping. -/
def WordSize.memMapSize (word : WordSize) : Nat := 2 * (word.bits / 8)

namespace SlotCache

/-- The eviction loop, with the number of entries in the list. It does not survive an empty one.
`maps` gives the outcomes of the growths of the vector. -/
def evictLoop (p : Platform) (maps : Nat → Bool) (maxEntriesCount : Nat) :
    Nat → Slots → VectorNoCtor MemMap → Option (Slots × VectorNoCtor MemMap)
  | 0, slots, evictionMemMaps =>
    if maxEntriesCount = 0 then none else some (slots, evictionMemMaps)
  | size + 1, slots, evictionMemMaps =>
    if maxEntriesCount ≤ size + 1 then
      match slots.remove slots.lruEntries.last with
      | none => none
      | some rest => evictLoop p maps maxEntriesCount size rest
          (evictionMemMaps.pushBack p.word.bits p.page p.word.memMapSize maps
            (slots.entries slots.lruEntries.last).memMap)
    else some (slots, evictionMemMaps)

/-- `store` after the quarantine, up to the end of the lock. -/
def storeEntry (p : Platform) (maps : Nat → Bool) (c : SlotCache) (entry : CachedBlock) :
    Option (SlotCache × List MemMap) :=
  match evictLoop p maps c.rest.maxEntriesCount c.slots.lruEntries.size c.slots
      (VectorNoCtor.init p.word.memMapSize 1) with
  | none => none
  | some (slots, evictionMemMaps) =>
    match slots.insert entry with
    | none => none
    | some slots => some (⟨c.rest.noteTime entry.time, slots⟩, evictionMemMaps.data)

/-- `store` at the clock value `now`: the cache after it and the mappings that it passes to the
unmap callback. -/
def store (p : Platform) (config : CacheConfig) (opts : Options) (maps : Nat → Bool) (now : Nat)
    (c : SlotCache) (commitBase commitSize blockBegin : Nat) (memMap : MemMap) :
    Option (SlotCache × List MemMap) :=
  let interval := c.rest.releaseToOsIntervalMs
  match beginStore config opts c.rest
      (Cache.storedEntry opts interval now commitBase commitSize blockBegin memMap) with
  | (rest, none, none) => some (⟨rest, c.slots⟩, [])
  | (rest, none, some unmapped) =>
    some (releaseAfterStore config ⟨rest, c.slots⟩ interval now, [unmapped])
  | (rest, some entry, _) =>
    match storeEntry p maps ⟨rest, c.slots⟩ entry with
    | none => none
    | some (c, unmapped) => some (c.releaseAfterStore config interval now, unmapped)

/-- The mappings of the entries that do not stay in the list, the oldest one first. -/
def evictions (c : SlotCache) : List MemMap :=
  (c.slots.lru.drop (c.rest.maxEntriesCount - 1)).reverse.map fun slot =>
    (c.slots.entries slot).memMap

section Evictions

variable {config : CacheConfig} {c : SlotCache} {live free : List Nat}

theorem memMapSize_sized (p : Platform) : VectorNoCtor.Sized p.page p.word.memMapSize := by
  have atLeast := p.page.atLeast
  constructor
  · cases p.word <;> decide
  · have small : 2 * p.word.memMapSize ≤ 4096 := by cases p.word <;> decide
    omega

/-- The loop leaves the newest entries and pushes the mappings of the others. -/
theorem evictLoop_spec (p : Platform) (maps : Nat → Bool) {maxEntriesCount : Nat} (enabled : 1 ≤ maxEntriesCount)
    (rest : Cache) (size : Nat) (slots : Slots) (vector : VectorNoCtor MemMap)
    {live free : List Nat} (intact : Intact config ⟨rest, slots⟩ live free)
    (length : live.length = size) :
    ∃ slots' free', evictLoop p maps maxEntriesCount size slots vector = some (slots',
        vector.pushAll p.word.bits p.page p.word.memMapSize maps
          ((live.drop (maxEntriesCount - 1)).reverse.map fun slot => (slots.entries slot).memMap)) ∧
      Intact config ⟨rest, slots'⟩ (live.take (maxEntriesCount - 1)) free' := by
  induction size generalizing slots vector live free with
  | zero =>
    obtain rfl := List.eq_nil_of_length_eq_zero length
    refine ⟨slots, free, ?_, ?_⟩
    · rw [evictLoop, if_neg (by omega)]
      rw [List.drop_nil]
      rfl
    · rw [List.take_nil]
      exact intact
  | succ size ih =>
    by_cases full : maxEntriesCount ≤ size + 1
    · have occupied : slots.lruEntries.size ≠ 0 := by
        rw [intact.tracks.lru.size, length]
        exact Nat.succ_ne_zero size
      obtain ⟨left, removed, shape, run, _⟩ := intact.last occupied
      rw [shape, List.length_append, List.length_singleton] at length
      rw [shape] at intact ⊢
      obtain ⟨intact', kept⟩ := intact.remove run
      rw [List.append_nil] at intact' kept
      obtain ⟨slots', free', loop, final⟩ := ih removed
        (vector.pushBack p.word.bits p.page p.word.memMapSize maps
          (slots.entries slots.lruEntries.last).memMap) intact' (by omega)
      have same : ((left.drop (maxEntriesCount - 1)).reverse.map fun slot =>
          (removed.entries slot).memMap) = (left.drop (maxEntriesCount - 1)).reverse.map fun slot =>
            (slots.entries slot).memMap := by
        apply List.map_congr_left
        intro slot member
        rw [kept slot (List.mem_of_mem_drop (List.mem_reverse.mp member))]
      refine ⟨slots', free', ?_, ?_⟩
      · rw [evictLoop, if_pos full, run]
        dsimp only
        rw [loop, same, List.drop_append_of_le_length (by omega), List.reverse_append,
          List.reverse_singleton, List.singleton_append, List.map_cons, VectorNoCtor.pushAll_cons]
      · rw [List.take_append_of_le_length (by omega)]
        exact final
    · refine ⟨slots, free, ?_, ?_⟩
      · rw [evictLoop, if_neg full, List.drop_eq_nil_of_le (by omega)]
        rfl
      · rw [List.take_of_length_le (by omega)]
        exact intact

theorem evictions_length (intact : c.Intact config live free) :
    c.evictions.length = c.slots.lruEntries.size - (c.rest.maxEntriesCount - 1) := by
  unfold evictions
  rw [List.length_map, List.length_reverse, List.length_drop, intact.tracks.lru_eq,
    intact.tracks.lru.size]

/-- The list keeps its newest entries and gets the new one, and the vector keeps the mappings of
the others if and only if it gets every buffer that it needs. -/
theorem storeEntry_spec (p : Platform) (maps : Nat → Bool) (intact : c.Intact config live free)
    (enabled : 1 ≤ c.rest.maxEntriesCount) (small : config.entriesArraySize < 2 ^ 16)
    {entry : CachedBlock} (valid : entry.isValid = true) :
    ∃ c' unmapped slot, storeEntry p maps c entry = some (c', unmapped) ∧
      (∃ live' free', c'.Intact config live' free') ∧
      c'.slots.lru = slot :: c.slots.lru.take (c.rest.maxEntriesCount - 1) ∧
      (unmapped = c.evictions ↔ ∀ growth,
        VectorNoCtor.room p.page p.word.memMapSize growth < c.evictions.length →
          maps growth = true) := by
  have size : c.slots.lruEntries.size = live.length := intact.tracks.lru.size
  obtain ⟨slots, free', loop, kept⟩ := evictLoop_spec p maps enabled c.rest c.slots.lruEntries.size
    c.slots (VectorNoCtor.init p.word.memMapSize 1) intact size.symm
  have room : slots.lruEntries.size < c.rest.maxEntriesCount := by
    have listed : slots.lruEntries.size = (live.take (c.rest.maxEntriesCount - 1)).length :=
      kept.tracks.lru.size
    rw [List.length_take] at listed
    omega
  obtain ⟨inserted, run⟩ := kept.room room entry
  obtain ⟨slot, free'', intact', _, _⟩ := kept.insert valid run
  have evicted : c.evictions = (live.drop (c.rest.maxEntriesCount - 1)).reverse.map fun slot =>
      (c.slots.entries slot).memMap := by
    unfold evictions
    rw [intact.tracks.lru_eq]
  have fits : 2 * c.evictions.length * p.word.memMapSize + p.page.bytes ≤ 2 ^ p.word.bits := by
    have total := intact.tracks.length_eq
    have few := evictions_length intact
    have page := p.page.atMost
    have bits := p.word.bits_le
    have element : p.word.memMapSize ≤ 16 := by cases p.word <;> decide
    have product : 2 * c.evictions.length * p.word.memMapSize ≤ 2 * 2 ^ 16 * 16 := by
      apply Nat.mul_le_mul _ element
      omega
    omega
  obtain ⟨count, quarantine⟩ := noteTime_rest c.rest entry.time
  refine ⟨⟨c.rest.noteTime entry.time, inserted⟩, _, slot, ?_,
    ⟨_, _, intact'.of_rest (count ▸ intact.count_le) (quarantine ▸ intact.length)⟩, ?_,
    VectorNoCtor.pushAll_data_iff maps (memMapSize_sized p) c.evictions fits⟩
  · unfold storeEntry
    rw [loop]
    dsimp only
    rw [run, ← evicted]
  · rw [intact.tracks.lru_eq]
    exact intact'.tracks.lru_eq

theorem releaseAfterStore_lru (config : CacheConfig) (c : SlotCache) (interval : Int) (time : Nat) :
    (c.releaseAfterStore config interval time).slots.lru = c.slots.lru := by
  unfold releaseAfterStore
  split_ifs
  · unfold releaseOlderThan
    split_ifs <;> rfl
  · rfl

/-- A `store` that reaches its eviction loop passes each mapping that it evicts to the unmap
callback once, if and only if each growth of the vector finds memory that so many evictions need:
the first one for more than one, the next ones for more than a page of them, two pages and so on.
The other stores evict nothing. -/
theorem evicted_maps_unmapped_iff (p : Platform) (maps : Nat → Bool)
    (intact : c.Intact config live free) (enabled : 1 ≤ c.rest.maxEntriesCount) (small : config.entriesArraySize < 2 ^ 16)
    (opts : Options) (now : Nat) {commitBase : Nat} (commitSize blockBegin : Nat)
    (memMap : MemMap) (mapped : commitBase ≠ 0) :
    ∃ c' unmapped, c.store p config opts maps now commitBase commitSize blockBegin memMap =
        some (c', unmapped) ∧ (∃ live' free', c'.Intact config live' free') ∧
      (if (beginStore config opts c.rest (Cache.storedEntry opts c.rest.releaseToOsIntervalMs now
          commitBase commitSize blockBegin memMap)).2.1.isSome then
        (∃ slot, c'.slots.lru = slot :: c.slots.lru.take (c.rest.maxEntriesCount - 1)) ∧
          (unmapped = c.evictions ↔ ∀ growth,
            VectorNoCtor.room p.page p.word.memMapSize growth <
                c.slots.lruEntries.size - (c.rest.maxEntriesCount - 1) →
              maps growth = true)
      else c'.slots.lru = c.slots.lru) := by
  have valid : (Cache.storedEntry opts c.rest.releaseToOsIntervalMs now commitBase commitSize
      blockBegin memMap).isValid = true := CacheRun.storedEntry_isValid opts _ mapped
  cases begun : beginStore config opts c.rest (Cache.storedEntry opts c.rest.releaseToOsIntervalMs
      now commitBase commitSize blockBegin memMap) with
  | mk rest out =>
    obtain ⟨out, unmap⟩ := out
    obtain ⟨count, length, kept⟩ := beginStore_rest intact.length valid begun
    have intact' := intact.of_rest (count ▸ intact.count_le) length
    cases out with
    | none =>
      cases unmap with
      | none =>
        refine ⟨⟨rest, c.slots⟩, [], ?_, ⟨live, free, intact'⟩, rfl⟩
        simp only [store, begun]
      | some unmapped =>
        refine ⟨releaseAfterStore config ⟨rest, c.slots⟩ c.rest.releaseToOsIntervalMs now,
          [unmapped], ?_, ⟨live, free, (intact'.releaseAfterStore _ _).1⟩, releaseAfterStore_lru ..⟩
        simp only [store, begun]
    | some entry =>
      have evicted : (SlotCache.mk rest c.slots).evictions = c.evictions := by
        unfold evictions
        rw [count]
      obtain ⟨c', unmapped, slot, run, ⟨live', free', stored⟩, list, iff⟩ := storeEntry_spec p maps intact'
        (count ▸ enabled) small (kept entry rfl)
      refine ⟨c'.releaseAfterStore config c.rest.releaseToOsIntervalMs now, unmapped, ?_,
        ⟨live', free', (stored.releaseAfterStore _ _).1⟩, ?_⟩
      · simp only [store, begun, run]
      · rw [evictions_length intact', evicted] at iff
        rw [count] at iff list
        rw [releaseAfterStore_lru]
        exact ⟨⟨slot, list⟩, iff⟩

end Evictions

/-- The same two evictions with a vector that gets its page. -/
theorem evicted_maps_unmapped_two :
    ∃ (c c' : SlotCache) (unmapped : List MemMap),
      c.evictions.map MemMap.range = [(4096, 4096), (8192, 4096)] ∧
      c.store Platform.linux64 ⟨2, 0, 2, 8192, 0, 0, 0⟩ ⟨false, false⟩ (fun _ => true) 7 12288 4096
        12288 (MemMap.fresh 12288 4096) = some (c', unmapped) ∧
      unmapped = c.evictions := by
  let config : CacheConfig := ⟨2, 0, 2, 8192, 0, 0, 0⟩
  have start := init_intact config 0 ⟨fun _ => 0, fun _ => 0⟩
  obtain ⟨_, _, first, _⟩ := start.insert
    (rfl : CachedBlock.isValid ⟨4096, 4096, 4096, MemMap.fresh 4096 4096, 5⟩ = true) rfl
  obtain ⟨_, _, second, _⟩ := first.insert
    (rfl : CachedBlock.isValid ⟨8192, 4096, 8192, MemMap.fresh 8192 4096, 6⟩ = true) rfl
  have shrunk := Intact.of_rest second
    (show (Cache.setOption config Platform.linux64 (Cache.init config 0) .maxCacheEntriesCount
      1).2.maxEntriesCount ≤ 2 by decide) rfl
  obtain ⟨c', unmapped, run, _, stored⟩ := evicted_maps_unmapped_iff Platform.linux64
    (fun _ => true) shrunk (by decide) (by decide) ⟨false, false⟩ 7 4096 12288
    (MemMap.fresh 12288 4096) (by decide : 12288 ≠ 0)
  obtain ⟨_, iff⟩ := stored
  exact ⟨_, c', unmapped, rfl, run, iff.mpr fun _ _ => rfl⟩

/-- Two entries are cached, the count goes down to one, and there is no memory for the vector: the
next `store` evicts both and unmaps the older one. -/
theorem eviction_loses_mapping :
    ∃ (first second third : SlotCache) (unmapped : List MemMap),
      (SlotCache.init ⟨2, 0, 2, 8192, 0, 0, 0⟩ 0 ⟨fun _ => 0, fun _ => 0⟩).store Platform.linux64
        ⟨2, 0, 2, 8192, 0, 0, 0⟩ ⟨false, false⟩ (fun _ => false) 5 4096 4096 4096
        (MemMap.fresh 4096 4096) = some (first, []) ∧
      first.store Platform.linux64 ⟨2, 0, 2, 8192, 0, 0, 0⟩ ⟨false, false⟩ (fun _ => false) 6 8192
        4096 8192 (MemMap.fresh 8192 4096) = some (second, []) ∧
      (SlotCache.mk (second.rest.setOption ⟨2, 0, 2, 8192, 0, 0, 0⟩ Platform.linux64
        .maxCacheEntriesCount 1).2 second.slots).evictions.map MemMap.range =
          [(4096, 4096), (8192, 4096)] ∧
      (SlotCache.mk (second.rest.setOption ⟨2, 0, 2, 8192, 0, 0, 0⟩ Platform.linux64
        .maxCacheEntriesCount 1).2 second.slots).store Platform.linux64 ⟨2, 0, 2, 8192, 0, 0, 0⟩
        ⟨false, false⟩ (fun _ => false) 7 12288 4096 12288 (MemMap.fresh 12288 4096) =
          some (third, unmapped) ∧
      unmapped.map MemMap.range = [(4096, 4096)] ∧ third.slots.lru.length = 1 :=
  ⟨_, _, _, _, rfl, rfl, rfl, rfl, rfl, rfl⟩

end SlotCache

end Scudo.Secondary
