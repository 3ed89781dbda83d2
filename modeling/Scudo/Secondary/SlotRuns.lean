import Mathlib.Algebra.BigOperators.Group.Multiset.Basic
import Mathlib.Data.List.Perm.Basic
import Mathlib.Tactic.Abel
import Scudo.Lib.Transition
import Scudo.Secondary.Slots

/-!
`MapAllocatorCache` with its entry array over whole runs, and where the mappings are that it
was given. The critical section of `store` is cut at every read of `MaxEntriesCount`, because
`setOption` does not take the lock.
-/

namespace Scudo.Secondary
open Scudo.Lib

/-- What makes two mappings different, whatever their bytes are. -/
def MemMap.range (m : MemMap) : Nat × Nat := (m.base, m.capacity)

def CachedBlock.range (entry : CachedBlock) : Nat × Nat := entry.memMap.range

/-- The mappings of the entries in the list. -/
def Slots.ranges (slots : Slots) : Multiset (Nat × Nat) :=
  (slots.lru.map fun slot => (slots.entries slot).range : List (Nat × Nat))

/-- The cache. The entries of `rest.lruEntries` stand in the slots. -/
structure SlotCache where
  rest : Cache
  slots : Slots

namespace SlotCache

/-- `store` up to the eviction loop: the entry that it goes on with, if it does, and a mapping
that is passed to the unmap callback at once. -/
def beginStore (config : CacheConfig) (opts : Options) (rest : Cache) (entry : CachedBlock) :
    Cache × Option CachedBlock × Option MemMap :=
  if opts.useMemoryTagging ∧ rest.quarantinePos = 2 ^ 32 - 1 then (rest, none, some entry.memMap)
  else if config.quarantineSize ≠ 0 ∧ opts.useMemoryTagging then
    let swapped := rest.quarantineEntry config entry
    (swapped.1, swapped.2, none)
  else (rest, some entry, none)

/-- `retrieve`, `none` where a `CHECK` fails. -/
def retrieve (p : Platform) (s : SlotCache)
    (maxAllowedFragmentedPages size alignment headersSize : Nat) :
    Option (Option (CachedBlock × Nat) × SlotCache) :=
  let counted := { s with
    rest := { s.rest with callsToRetrieve := s.rest.callsToRetrieve + 1 } }
  if s.slots.lruEntries.size = 0 then some (none, counted)
  else
    match Cache.scan p maxAllowedFragmentedPages size alignment headersSize
        (s.slots.lru.map s.slots.entries) 0 none with
    | none => some (none, counted)
    | some candidate =>
      match s.slots.lru[candidate.index]? with
      | none => some (none, counted)
      | some slot =>
        match s.slots.remove slot with
        | none => none
        | some slots => some
            (some ((s.slots.entries slot).releaseFragment p candidate.headerPos,
              candidate.headerPos),
            { rest := { counted.rest with
                successfulRetrieves := s.rest.successfulRetrieves + 1 }
              slots := slots })

/-- The loop of `releaseOlderThan` over the entry array. -/
def releaseSlots (time : Nat) :
    List Nat → (Nat → CachedBlock) → Nat → (Nat → CachedBlock) × Nat
  | [], entries, oldestTime => (entries, oldestTime)
  | slot :: later, entries, oldestTime =>
    let released := (entries slot).releaseIfOlderThan time oldestTime
    releaseSlots time later (Function.update entries slot released.1) released.2

def releaseOlderThan (config : CacheConfig) (s : SlotCache) (time : Nat) : SlotCache :=
  if s.slots.lruEntries.size = 0 ∨ s.rest.oldestTime = 0 ∨ time < s.rest.oldestTime then s
  else
    let quarantine := Cache.releaseAll time s.rest.quarantine 0
    let released := releaseSlots time (List.range' 1 config.entriesArraySize) s.slots.entries
      quarantine.2
    { rest := { s.rest with quarantine := quarantine.1, oldestTime := released.2 }
      slots := { s.slots with entries := released.1 } }

def init (config : CacheConfig) (releaseToOsInterval : Int) (links : Links) : SlotCache :=
  ⟨Cache.init config releaseToOsInterval, Slots.init config.entriesArraySize links⟩

/-- What the release of one entry keeps, the release of all of them keeps. -/
theorem releaseSlots_keeps {β : Type} (f : CachedBlock → β)
    (keeps : ∀ (entry : CachedBlock) (time oldestTime : Nat),
      f (entry.releaseIfOlderThan time oldestTime).1 = f entry)
    (time : Nat) (order : List Nat) (entries : Nat → CachedBlock) (oldestTime slot : Nat) :
    f ((releaseSlots time order entries oldestTime).1 slot) = f (entries slot) := by
  induction order generalizing entries oldestTime with
  | nil => rfl
  | cons first later ih =>
    rw [releaseSlots, ih]
    by_cases same : slot = first
    · rw [same, Function.update_self]
      exact keeps _ _ _
    · rw [Function.update_of_ne same]

end SlotCache

/-- The cache between two steps of its threads. `storing` is the entry of a `store` that holds
the lock. What `store` puts into its vector of evicted mappings counts as unmapped. -/
structure CacheRun where
  cache : SlotCache
  storing : Option CachedBlock
  stored : Multiset (Nat × Nat)
  returned : Multiset (Nat × Nat)
  unmapped : Multiset (Nat × Nat)

namespace CacheRun

def rangesOf (maps : List MemMap) : Multiset (Nat × Nat) := (maps.map MemMap.range : List (Nat × Nat))

/-- `opts` and `interval` have been read before the lock was taken, so that they may be old.
Stores happen only while `MaxEntriesCount` is positive. -/
inductive Step (p : Platform) (config : CacheConfig) : CacheRun → CacheRun → Prop
  | beginStore {s : CacheRun} (opts : Options) (interval : Int)
      (now commitBase commitSize blockBegin : Nat) (memMap : MemMap) (free : s.storing = none)
      (caches : 1 ≤ s.cache.rest.maxEntriesCount) (mapped : commitBase ≠ 0) (rest : Cache)
      (entry : Option CachedBlock) (unmap : Option MemMap)
      (run : SlotCache.beginStore config opts s.cache.rest
        (Cache.storedEntry opts interval now commitBase commitSize blockBegin memMap) =
          (rest, entry, unmap)) :
      Step p config s { s with
        cache := ⟨rest, s.cache.slots⟩
        storing := entry
        stored := memMap.range ::ₘ s.stored
        unmapped := s.unmapped + rangesOf unmap.toList }
  | evict {s : CacheRun} (entry : CachedBlock) (storing : s.storing = some entry)
      (full : s.cache.rest.maxEntriesCount ≤ s.cache.slots.lruEntries.size) (slots : Slots)
      (run : s.cache.slots.remove s.cache.slots.lruEntries.last = some slots) :
      Step p config s { s with
        cache := ⟨s.cache.rest, slots⟩
        unmapped := (s.cache.slots.entries s.cache.slots.lruEntries.last).range ::ₘ s.unmapped }
  | insert {s : CacheRun} (entry : CachedBlock) (storing : s.storing = some entry)
      (room : s.cache.slots.lruEntries.size < s.cache.rest.maxEntriesCount) (slots : Slots)
      (run : s.cache.slots.insert entry = some slots) :
      Step p config s { s with
        cache := ⟨s.cache.rest.noteTime entry.time, slots⟩
        storing := none }
  | retrieve {s : CacheRun} (maxAllowedFragmentedPages size alignment headersSize : Nat)
      (free : s.storing = none) (out : Option (CachedBlock × Nat)) (cache : SlotCache)
      (run : s.cache.retrieve p maxAllowedFragmentedPages size alignment headersSize =
        some (out, cache)) :
      Step p config s { s with
        cache := cache
        returned := s.returned + rangesOf (out.toList.map fun found => found.1.memMap) }
  | releaseOlderThan {s : CacheRun} (time : Nat) (free : s.storing = none) :
      Step p config s { s with cache := s.cache.releaseOlderThan config time }
  | setOption {s : CacheRun} (o : CacheOption) (value : Int)
      (caches : s.storing ≠ none →
        1 ≤ (s.cache.rest.setOption config p o value).2.maxEntriesCount) :
      Step p config s { s with
        cache := ⟨(s.cache.rest.setOption config p o value).2, s.cache.slots⟩ }
  | disableMemoryTagging {s : CacheRun} (free : s.storing = none) :
      Step p config s { s with
        cache := ⟨s.cache.rest.disableMemoryTagging.1, s.cache.slots⟩
        unmapped := s.unmapped + rangesOf s.cache.rest.disableMemoryTagging.2 }

/-- After `init`; the links are those of fresh memory. -/
def Initial (config : CacheConfig) (s : CacheRun) : Prop :=
  ∃ releaseToOsInterval links,
    s = ⟨SlotCache.init config releaseToOsInterval links, none, 0, 0, 0⟩

def system (p : Platform) (config : CacheConfig) : System CacheRun :=
  ⟨Initial config, Step p config⟩

def quarantineOf (quarantine : List CachedBlock) : Multiset (Nat × Nat) :=
  ((quarantine.filter CachedBlock.isValid).map CachedBlock.range : List (Nat × Nat))

/-- The mapping of a `store` between its two ends. -/
def inHand (s : CacheRun) : Multiset (Nat × Nat) :=
  (s.storing.toList.map CachedBlock.range : List (Nat × Nat))

structure Sound (config : CacheConfig) (s : CacheRun) : Prop where
  tracks : ∃ live free, s.cache.slots.Tracks config.entriesArraySize live free
  count_le : s.cache.rest.maxEntriesCount ≤ config.entriesArraySize
  caches : s.storing ≠ none → 1 ≤ s.cache.rest.maxEntriesCount
  length : s.cache.rest.quarantine.length = config.quarantineSize
  conserved : s.stored =
    s.cache.slots.ranges + quarantineOf s.cache.rest.quarantine + s.returned + s.unmapped + s.inHand

section Entries

variable {config : CacheConfig}

theorem releaseIfOlderThan_range (entry : CachedBlock) (time oldestTime : Nat) :
    (entry.releaseIfOlderThan time oldestTime).1.range = entry.range := by
  unfold CachedBlock.releaseIfOlderThan
  split_ifs <;> rfl

theorem releaseFragment_range (p : Platform) (entry : CachedBlock) (headerPos : Nat) :
    (entry.releaseFragment p headerPos).range = entry.range := by
  unfold CachedBlock.releaseFragment
  dsimp only
  split_ifs <;> rfl

theorem storedEntry_range (opts : Options) (interval : Int)
    (now commitBase commitSize blockBegin : Nat) (memMap : MemMap) :
    (Cache.storedEntry opts interval now commitBase commitSize blockBegin memMap).range =
      memMap.range := by
  unfold Cache.storedEntry
  split_ifs <;> rfl

theorem storedEntry_isValid (opts : Options) (interval : Int)
    {now commitBase commitSize blockBegin : Nat} {memMap : MemMap} (mapped : commitBase ≠ 0) :
    (Cache.storedEntry opts interval now commitBase commitSize blockBegin memMap).isValid =
      true := by
  unfold Cache.storedEntry
  split_ifs
  · exact bne_iff_ne.mpr mapped
  · exact bne_iff_ne.mpr mapped

theorem releaseSlots_range (time : Nat) (order : List Nat) (entries : Nat → CachedBlock)
    (oldestTime slot : Nat) :
    ((SlotCache.releaseSlots time order entries oldestTime).1 slot).range =
      (entries slot).range :=
  SlotCache.releaseSlots_keeps CachedBlock.range releaseIfOlderThan_range time order entries
    oldestTime slot

theorem quarantineOf_cons (entry : CachedBlock) (quarantine : List CachedBlock) :
    quarantineOf (entry :: quarantine) =
      (if entry.isValid then {entry.range} else 0) + quarantineOf quarantine := by
  unfold quarantineOf
  cases valid : entry.isValid with
  | true =>
    rw [List.filter_cons_of_pos valid, List.map_cons, if_pos rfl, Multiset.singleton_add]
    rfl
  | false =>
    rw [List.filter_cons_of_neg (by simp [valid]), if_neg (by simp), zero_add]

theorem quarantineOf_perm {first second : List CachedBlock} (perm : first.Perm second) :
    quarantineOf first = quarantineOf second :=
  Multiset.coe_eq_coe.mpr ((perm.filter _).map _)

/-- Writing one place of the quarantine exchanges two entries. -/
theorem quarantineOf_set {quarantine : List CachedBlock} {pos : Nat} (inside : pos < quarantine.length)
    (entry : CachedBlock) :
    quarantineOf (quarantine.set pos entry) +
        (if quarantine[pos].isValid then {quarantine[pos].range} else 0) =
      quarantineOf quarantine + if entry.isValid then {entry.range} else 0 := by
  rw [quarantineOf_perm (List.set_perm_cons_eraseIdx inside entry),
    ← quarantineOf_perm (List.getElem_cons_eraseIdx_perm inside), quarantineOf_cons,
    quarantineOf_cons]
  abel

theorem releaseAll_quarantineOf (time : Nat) (quarantine : List CachedBlock) (oldestTime : Nat) :
    quarantineOf (Cache.releaseAll time quarantine oldestTime).1 = quarantineOf quarantine ∧
      (Cache.releaseAll time quarantine oldestTime).1.length = quarantine.length := by
  induction quarantine generalizing oldestTime with
  | nil => exact ⟨rfl, rfl⟩
  | cons entry rest ih =>
    obtain ⟨same, length⟩ := ih (entry.releaseIfOlderThan time oldestTime).2
    rw [Cache.releaseAll]
    constructor
    · rw [quarantineOf_cons, quarantineOf_cons, same, releaseIfOlderThan_range,
        CachedBlock.releaseIfOlderThan_isValid]
    · rw [List.length_cons, List.length_cons, length]

/-- After `disableMemoryTagging` the quarantine keeps nothing. -/
theorem quarantineOf_invalidated (quarantine : List CachedBlock) :
    quarantineOf (quarantine.map fun entry =>
      if entry.isValid then entry.invalidate else entry) = 0 := by
  induction quarantine with
  | nil => rfl
  | cons entry rest ih =>
    rw [List.map_cons, quarantineOf_cons, ih, if_neg, zero_add]
    split_ifs with valid
    · simp [CachedBlock.isValid, CachedBlock.invalidate]
    · exact valid

/-- Every case of `quarantineEntry` puts the entry into the quarantine and hands out the valid
one that was in its place. -/
theorem quarantineEntry_ranges {cache : Cache} (length : cache.quarantine.length = config.quarantineSize)
    (exists_ : config.quarantineSize ≠ 0) {entry : CachedBlock} (valid : entry.isValid = true) :
    quarantineOf (cache.quarantineEntry config entry).1.quarantine +
        rangesOf ((cache.quarantineEntry config entry).2.toList.map CachedBlock.memMap) =
      quarantineOf cache.quarantine + {entry.range} ∧
    (cache.quarantineEntry config entry).1.quarantine.length = config.quarantineSize ∧
    (cache.quarantineEntry config entry).1.maxEntriesCount = cache.maxEntriesCount := by
  have inside : wadd 32 cache.quarantinePos 1 % max config.quarantineSize 1 <
      cache.quarantine.length := by
    rw [length, max_eq_left (by omega)]
    exact Nat.mod_lt _ (by omega)
  have exchange := quarantineOf_set inside entry
  rw [if_pos valid] at exchange
  have previous : cache.quarantine.getD (wadd 32 cache.quarantinePos 1 % max config.quarantineSize 1)
      CachedBlock.empty = cache.quarantine[wadd 32 cache.quarantinePos 1 %
        max config.quarantineSize 1] := by
    rw [List.getD_eq_getElem?_getD, List.getElem?_eq_getElem inside]
    rfl
  unfold Cache.quarantineEntry
  dsimp only
  rw [previous]
  split_ifs with occupied
  · rw [if_pos occupied] at exchange
    refine ⟨?_, ?_, ?_⟩
    · unfold Cache.noteTime
      split_ifs <;> exact exchange
    · unfold Cache.noteTime
      split_ifs <;> exact (List.length_set ..).trans length
    · unfold Cache.noteTime
      split_ifs <;> rfl
  · rw [if_neg occupied] at exchange
    exact ⟨exchange, (List.length_set ..).trans length, rfl⟩

end Entries

section Steps

variable {p : Platform} {config : CacheConfig} {s s' : CacheRun} {live free : List Nat}

theorem ranges_eq {slots : Slots} (tracks : slots.Tracks config.entriesArraySize live free) :
    slots.ranges = (live.map fun slot => (slots.entries slot).range : List (Nat × Nat)) := by
  unfold Slots.ranges
  rw [tracks.lru_eq]

/-- The list of mappings after a slot outside of it has been written. -/
theorem map_update_of_notMem {entries : Nat → CachedBlock} {slot : Nat} {slots : List Nat}
    (outside : slot ∉ slots) (entry : CachedBlock) :
    (slots.map fun x => (Function.update entries slot entry x).range) =
      slots.map fun x => (entries x).range := by
  apply List.map_congr_left
  intro x member
  rw [Function.update_of_ne]
  rintro rfl
  exact outside member

/-- Taking a slot out of the list takes its mapping out of those of the list. -/
theorem remove_ranges {slot : Nat} {left right : List Nat} {slots slots' : Slots}
    (tracks : slots.Tracks config.entriesArraySize (left ++ slot :: right) free)
    (tracks' : slots'.Tracks config.entriesArraySize (left ++ right) (slot :: free))
    (entries : slots'.entries =
      Function.update slots.entries slot (slots.entries slot).invalidate) :
    slots.ranges = {(slots.entries slot).range} + slots'.ranges := by
  have outside : slot ∉ left ++ right := by
    have nodup := tracks'.nodup
    exact fun member => (List.nodup_append.mp nodup).2.2 slot member slot List.mem_cons_self rfl
  have after : slots'.ranges =
      ((left ++ right).map fun x => (slots.entries x).range : List (Nat × Nat)) := by
    rw [ranges_eq tracks', entries, map_update_of_notMem outside]
  rw [ranges_eq tracks, after, Multiset.singleton_add, Multiset.cons_coe]
  exact Multiset.coe_eq_coe.mpr (List.perm_middle.map _)

/-- With an entry in hand and the list full there is a last slot, and `remove` takes it. -/
theorem Sound.evict (sound : s.Sound config) {entry : CachedBlock} (storing : s.storing = some entry)
    (full : s.cache.rest.maxEntriesCount ≤ s.cache.slots.lruEntries.size) :
    ∃ left free slots, s.cache.slots.Tracks config.entriesArraySize
        (left ++ [s.cache.slots.lruEntries.last]) free ∧
      s.cache.slots.remove s.cache.slots.lruEntries.last = some slots ∧
      slots.Tracks config.entriesArraySize left (s.cache.slots.lruEntries.last :: free) ∧
      slots.entries = Function.update s.cache.slots.entries s.cache.slots.lruEntries.last
        (s.cache.slots.entries s.cache.slots.lruEntries.last).invalidate := by
  obtain ⟨live, free, tracks⟩ := sound.tracks
  have positive := sound.caches (by simp [storing])
  have size := tracks.lru.size
  rcases List.eq_nil_or_concat' live with rfl | ⟨left, slot, rfl⟩
  · rw [List.length_nil] at size
    omega
  · have last : s.cache.slots.lruEntries.last = slot := by
      rw [tracks.lru.last, List.getLastD_concat]
    obtain ⟨slots, run, tracks', entries⟩ := tracks.remove
    rw [List.append_nil] at tracks'
    rw [last]
    exact ⟨left, free, slots, tracks, run, tracks', entries⟩

/-- With an entry in hand and room in the list there is an available slot, and `insert` takes
it. -/
theorem Sound.insert (sound : s.Sound config)
    (room : s.cache.slots.lruEntries.size < s.cache.rest.maxEntriesCount) (entry : CachedBlock) :
    ∃ live slot free slots, s.cache.slots.Tracks config.entriesArraySize live (slot :: free) ∧
      s.cache.slots.availEntries.first = slot ∧ slot ≠ 0 ∧
      s.cache.slots.insert entry = some slots ∧
      slots.Tracks config.entriesArraySize (slot :: live) free ∧
      slots.entries = Function.update s.cache.slots.entries slot entry := by
  obtain ⟨live, free, tracks⟩ := sound.tracks
  have size := tracks.lru.size
  have total := tracks.length_eq
  have count := sound.count_le
  cases free with
  | nil =>
    rw [List.length_nil] at total
    omega
  | cons slot free =>
    obtain ⟨slots, run, tracks', entries⟩ := Slots.Tracks.insert tracks entry
    exact ⟨live, slot, free, slots, tracks, tracks.avail.first, tracks.proper slot (by simp), run,
      tracks', entries⟩

theorem beginStore_sound (sound : s.Sound config) {opts : Options} {rest : Cache}
    {entry : CachedBlock} {out : Option CachedBlock} {unmap : Option MemMap}
    (free : s.storing = none) (caches : 1 ≤ s.cache.rest.maxEntriesCount)
    (valid : entry.isValid = true)
    (run : SlotCache.beginStore config opts s.cache.rest entry = (rest, out, unmap)) :
    Sound config { s with
      cache := ⟨rest, s.cache.slots⟩
      storing := out
      stored := entry.range ::ₘ s.stored
      unmapped := s.unmapped + rangesOf unmap.toList } := by
  have before := sound.conserved
  unfold inHand at before
  rw [free] at before
  unfold SlotCache.beginStore at run
  split_ifs at run with disabled quarantines
  · cases run
    refine { sound with caches := fun none => absurd rfl none, conserved := ?_ }
    change entry.range ::ₘ s.stored = s.cache.slots.ranges + _ + _ + (s.unmapped + {entry.range}) + 0
    rw [before, ← Multiset.singleton_add]
    change _ + (_ + _ + _ + _ + 0) = _
    abel
  · cases run
    obtain ⟨ranges, length, count⟩ := quarantineEntry_ranges sound.length quarantines.1 valid
    refine ⟨sound.tracks, count ▸ sound.count_le, fun _ => count ▸ caches, length, ?_⟩
    have inHand : rangesOf ((s.cache.rest.quarantineEntry config entry).2.toList.map
        CachedBlock.memMap) = ((s.cache.rest.quarantineEntry config entry).2.toList.map
          CachedBlock.range : List (Nat × Nat)) := by
      unfold rangesOf
      rw [List.map_map]
      rfl
    rw [inHand] at ranges
    change entry.range ::ₘ s.stored = s.cache.slots.ranges +
      quarantineOf (s.cache.rest.quarantineEntry config entry).1.quarantine + _ + (s.unmapped + 0) + _
    rw [before, ← Multiset.singleton_add]
    calc {entry.range} + (s.cache.slots.ranges + quarantineOf s.cache.rest.quarantine + s.returned +
          s.unmapped + 0)
        = s.cache.slots.ranges + (quarantineOf s.cache.rest.quarantine + {entry.range}) + s.returned +
            s.unmapped := by abel
      _ = _ := by
        rw [← ranges]
        unfold CacheRun.inHand
        abel
  · cases run
    refine { sound with caches := fun _ => caches, conserved := ?_ }
    change entry.range ::ₘ s.stored = s.cache.slots.ranges + _ + _ + (s.unmapped + 0) + {entry.range}
    rw [before, ← Multiset.singleton_add]
    change _ + (_ + _ + _ + _ + 0) = _
    abel

theorem retrieve_sound (sound : s.Sound config) {maxAllowedFragmentedPages size alignment
    headersSize : Nat} {out : Option (CachedBlock × Nat)} {cache : SlotCache}
    (run : s.cache.retrieve p maxAllowedFragmentedPages size alignment headersSize =
      some (out, cache)) :
    Sound config { s with
      cache := cache
      returned := s.returned + rangesOf (out.toList.map fun found => found.1.memMap) } := by
  have before := sound.conserved
  -- where nothing is found only the counters change
  have nothing : ∀ rest : Cache, rest.maxEntriesCount = s.cache.rest.maxEntriesCount →
      rest.quarantine = s.cache.rest.quarantine →
      Sound config { s with
        cache := ⟨rest, s.cache.slots⟩
        returned := s.returned + rangesOf [] } := by
    intro rest count quarantine
    refine ⟨sound.tracks, count ▸ sound.count_le, fun storing => count ▸ sound.caches storing,
      quarantine ▸ sound.length, ?_⟩
    change s.stored = s.cache.slots.ranges + quarantineOf rest.quarantine + (s.returned + 0) + _ + s.inHand
    rw [quarantine, add_zero]
    exact before
  obtain ⟨live, free, tracks⟩ := sound.tracks
  unfold SlotCache.retrieve at run
  dsimp only at run
  rw [tracks.lru_eq] at run
  split_ifs at run with none
  · cases run
    exact nothing _ rfl rfl
  · split at run
    · cases run
      exact nothing _ rfl rfl
    · rename_i candidate scanned
      split at run
      · cases run
        exact nothing _ rfl rfl
      · rename_i slot found
        obtain ⟨inside, rfl⟩ := List.getElem?_eq_some_iff.mp found
        have cut : live = live.take candidate.index ++ live[candidate.index] ::
            live.drop (candidate.index + 1) := by
          rw [List.cons_getElem_drop_succ, List.take_append_drop]
        rw [cut] at tracks
        obtain ⟨slots, removed, tracks', entries⟩ := tracks.remove
        rw [removed] at run
        cases run
        refine ⟨⟨_, _, tracks'⟩, sound.count_le, sound.caches, sound.length, ?_⟩
        have ranges := remove_ranges tracks tracks' entries
        have handedOut : rangesOf [((s.cache.slots.entries
              live[candidate.index]).releaseFragment p candidate.headerPos).memMap] =
            {(s.cache.slots.entries live[candidate.index]).range} := by
          rw [← releaseFragment_range p _ candidate.headerPos]
          rfl
        rw [ranges] at before
        change s.stored = slots.ranges + _ + (s.returned + rangesOf [_]) + _ + s.inHand
        rw [before, handedOut]
        abel

theorem evict_sound (sound : s.Sound config) {entry : CachedBlock} (storing : s.storing = some entry)
    (full : s.cache.rest.maxEntriesCount ≤ s.cache.slots.lruEntries.size) {slots : Slots}
    (run : s.cache.slots.remove s.cache.slots.lruEntries.last = some slots) :
    Sound config { s with
      cache := ⟨s.cache.rest, slots⟩
      unmapped := (s.cache.slots.entries s.cache.slots.lruEntries.last).range ::ₘ s.unmapped } := by
  obtain ⟨left, free, slots', tracks, removed, tracks', entries⟩ := sound.evict storing full
  rw [removed] at run
  cases run
  have before := sound.conserved
  have tracks'' : slots.Tracks config.entriesArraySize (left ++ [])
      (s.cache.slots.lruEntries.last :: free) := by
    rw [List.append_nil]
    exact tracks'
  rw [remove_ranges tracks tracks'' entries] at before
  refine ⟨⟨_, _, tracks'⟩, sound.count_le, sound.caches, sound.length, ?_⟩
  change s.stored = slots.ranges + _ + _ + (_ ::ₘ s.unmapped) + s.inHand
  rw [before, ← Multiset.singleton_add]
  abel

theorem insert_sound (sound : s.Sound config) {entry : CachedBlock} (storing : s.storing = some entry)
    (room : s.cache.slots.lruEntries.size < s.cache.rest.maxEntriesCount) {slots : Slots}
    (run : s.cache.slots.insert entry = some slots) :
    Sound config { s with
      cache := ⟨s.cache.rest.noteTime entry.time, slots⟩
      storing := none } := by
  obtain ⟨live, slot, free, slots', tracks, _, _, inserted, tracks', entries⟩ :=
    sound.insert room entry
  rw [inserted] at run
  cases run
  have rest : (s.cache.rest.noteTime entry.time).maxEntriesCount = s.cache.rest.maxEntriesCount ∧
      (s.cache.rest.noteTime entry.time).quarantine = s.cache.rest.quarantine := by
    unfold Cache.noteTime
    split_ifs <;> exact ⟨rfl, rfl⟩
  have outside : slot ∉ live := by
    have nodup := tracks'.nodup
    rw [List.cons_append, List.nodup_cons] at nodup
    exact fun member => nodup.1 (List.mem_append_left _ member)
  have before := sound.conserved
  have hand : s.inHand = {entry.range} := by
    unfold inHand
    rw [storing]
    rfl
  refine ⟨⟨_, _, tracks'⟩, rest.1 ▸ sound.count_le, fun none => absurd rfl none,
    rest.2 ▸ sound.length, ?_⟩
  rw [ranges_eq tracks', before, hand, ranges_eq tracks]
  dsimp only
  rw [rest.2, entries, List.map_cons, Function.update_self, map_update_of_notMem outside,
    ← Multiset.cons_coe, ← Multiset.singleton_add]
  change _ = _ + _ + _ + _ + 0
  abel

theorem releaseOlderThan_sound (sound : s.Sound config) (time : Nat) :
    Sound config { s with cache := s.cache.releaseOlderThan config time } := by
  unfold SlotCache.releaseOlderThan
  split_ifs with nothing
  · exact sound
  · obtain ⟨live, free, tracks⟩ := sound.tracks
    obtain ⟨quarantine, length⟩ := releaseAll_quarantineOf time s.cache.rest.quarantine 0
    have tracks' : Slots.Tracks { s.cache.slots with
        entries := (SlotCache.releaseSlots time (List.range' 1 config.entriesArraySize)
          s.cache.slots.entries (Cache.releaseAll time s.cache.rest.quarantine 0).2).1 }
        config.entriesArraySize live free := ⟨tracks.lru, tracks.avail, tracks.all⟩
    refine ⟨⟨live, free, tracks'⟩, sound.count_le, sound.caches, length.trans sound.length, ?_⟩
    rw [ranges_eq tracks']
    dsimp only
    rw [quarantine, sound.conserved, ranges_eq tracks]
    simp only [releaseSlots_range]
    rfl

theorem setOption_sound (sound : s.Sound config) {o : CacheOption} {value : Int}
    (caches : s.storing ≠ none →
      1 ≤ (s.cache.rest.setOption config p o value).2.maxEntriesCount) :
    Sound config { s with
      cache := ⟨(s.cache.rest.setOption config p o value).2, s.cache.slots⟩ } := by
  have kept : (s.cache.rest.setOption config p o value).2.quarantine = s.cache.rest.quarantine := by
    unfold Cache.setOption
    cases o with
    | releaseInterval => rfl
    | maxCacheEntriesCount =>
      dsimp only
      split_ifs <;> rfl
    | maxCacheEntrySize => rfl
  have count : (s.cache.rest.setOption config p o value).2.maxEntriesCount ≤
      config.entriesArraySize := by
    unfold Cache.setOption
    cases o with
    | releaseInterval => exact sound.count_le
    | maxCacheEntriesCount =>
      dsimp only
      split_ifs
      · exact sound.count_le
      · exact min_le_right _ _
    | maxCacheEntrySize => exact sound.count_le
  refine ⟨sound.tracks, count, caches, kept ▸ sound.length, ?_⟩
  dsimp only
  rw [kept]
  exact sound.conserved

theorem disableMemoryTagging_sound (sound : s.Sound config) :
    Sound config { s with
      cache := ⟨s.cache.rest.disableMemoryTagging.1, s.cache.slots⟩
      unmapped := s.unmapped + rangesOf s.cache.rest.disableMemoryTagging.2 } := by
  have emptied : quarantineOf s.cache.rest.disableMemoryTagging.1.quarantine = 0 :=
    quarantineOf_invalidated _
  have out : rangesOf s.cache.rest.disableMemoryTagging.2 =
      quarantineOf s.cache.rest.quarantine := by
    unfold rangesOf Cache.disableMemoryTagging
    rw [List.map_map]
    rfl
  refine ⟨sound.tracks, sound.count_le, sound.caches, ?_, ?_⟩
  · exact (List.length_map _).trans sound.length
  · dsimp only
    rw [emptied, out, sound.conserved]
    unfold inHand
    abel

theorem Step.sound (step : Step p config s s') (sound : s.Sound config) : s'.Sound config := by
  cases step with
  | beginStore opts interval now commitBase commitSize blockBegin memMap free caches mapped rest
      entry unmap run =>
    rw [← storedEntry_range opts interval now commitBase commitSize blockBegin memMap]
    exact beginStore_sound sound free caches (storedEntry_isValid opts interval mapped) run
  | evict entry storing full slots run => exact evict_sound sound storing full run
  | insert entry storing room slots run => exact insert_sound sound storing room run
  | retrieve maxAllowedFragmentedPages size alignment headersSize free out cache run =>
    exact retrieve_sound sound run
  | releaseOlderThan time free => exact releaseOlderThan_sound sound time
  | setOption o value caches => exact setOption_sound sound caches
  | disableMemoryTagging free => exact disableMemoryTagging_sound sound

theorem Initial.sound (initial : Initial config s) : s.Sound config := by
  obtain ⟨releaseToOsInterval, links, rfl⟩ := initial
  have tracks := Slots.init_tracks config.entriesArraySize links
  refine ⟨⟨_, _, tracks⟩, min_le_right _ _, fun none => absurd rfl none, List.length_replicate, ?_⟩
  have empty : quarantineOf (List.replicate config.quarantineSize CachedBlock.empty) = 0 := by
    unfold quarantineOf
    rw [List.filter_eq_nil_iff.mpr]
    · rfl
    · intro entry member
      rw [List.eq_of_mem_replicate member]
      decide
  change 0 = (Slots.init config.entriesArraySize links).ranges +
    quarantineOf (List.replicate config.quarantineSize CachedBlock.empty) + 0 + 0 + 0
  rw [ranges_eq tracks, empty]
  rfl

theorem reachable_sound (reached : (system p config).Reachable s) : s.Sound config := by
  apply reached.invariant
  · intro s initial
    exact Initial.sound initial
  · intro s s' sound step
    exact Step.sound step sound

end Steps

/-- In every run a stored mapping is in one of five places: the list, the quarantine, among those
that were returned, among those that were unmapped, or with the `store` that has the lock. The
two lists share out the slots of the array, and neither `insert` nor an eviction meets an empty
one. -/
theorem secondary_cache_conserves {p : Platform} {config : CacheConfig} {s : CacheRun}
    (reached : (system p config).Reachable s) :
    s.stored = s.cache.slots.ranges + quarantineOf s.cache.rest.quarantine + s.returned + s.unmapped +
        s.inHand ∧
      (s.cache.slots.lru ++ s.cache.slots.avail).Perm (List.range' 1 config.entriesArraySize) ∧
      s.cache.slots.lruEntries.size = s.cache.slots.lru.length ∧
      s.cache.slots.lruEntries.size ≤ config.entriesArraySize ∧
      ∀ entry, s.storing = some entry →
        (s.cache.slots.lruEntries.size < s.cache.rest.maxEntriesCount →
          s.cache.slots.availEntries.first ≠ 0 ∧ (s.cache.slots.insert entry).isSome) ∧
        (s.cache.rest.maxEntriesCount ≤ s.cache.slots.lruEntries.size →
          (s.cache.slots.remove s.cache.slots.lruEntries.last).isSome) := by
  have sound := reachable_sound reached
  obtain ⟨live, free, tracks⟩ := sound.tracks
  have size : s.cache.slots.lruEntries.size = s.cache.slots.lru.length := by
    rw [tracks.lru_eq, tracks.lru.size]
  have total := tracks.length_eq
  refine ⟨sound.conserved, ?_, size, ?_, ?_⟩
  · rw [tracks.lru_eq, tracks.avail_eq]
    exact tracks.all
  · rw [tracks.lru.size]
    omega
  · intro entry storing
    constructor
    · intro room
      obtain ⟨_, slot, _, slots, _, first, nonzero, run, _⟩ := sound.insert room entry
      exact ⟨first ▸ nonzero, by rw [run]; rfl⟩
    · intro full
      obtain ⟨_, _, slots, _, run, _⟩ := sound.evict storing full
      rw [run]
      rfl

/-- One slot: the first mapping is in the list when the second one is stored, so that the next
step evicts it. -/
theorem secondary_cache_conserves_two_stores :
    ∃ s : CacheRun, (system Platform.linux64 ⟨1, 0, 1, 8192, 0, 0, 0⟩).Reachable s ∧
      s.stored = {(8192, 4096), (4096, 4096)} ∧ s.storing.isSome ∧ s.cache.slots.lru = [1] ∧
      s.stored = s.cache.slots.ranges + quarantineOf s.cache.rest.quarantine + s.returned +
        s.unmapped + s.inHand ∧
      (s.cache.slots.remove 1).isSome := by
  let config : CacheConfig := ⟨1, 0, 1, 8192, 0, 0, 0⟩
  let opts : Options := ⟨false, false⟩
  let start : CacheRun := ⟨SlotCache.init config 0 ⟨fun _ => 0, fun _ => 0⟩, none, 0, 0, 0⟩
  have started : (system Platform.linux64 config).Reachable start := .init ⟨0, _, rfl⟩
  have first := System.Reachable.step started (Step.beginStore opts 0 7 4096 4096 4096
    (MemMap.fresh 4096 4096) rfl (by decide) (by decide) _ _ _ rfl)
  have inserted := System.Reachable.step first (Step.insert _ rfl (by decide) _ rfl)
  have second := System.Reachable.step inserted (Step.beginStore opts 0 9 8192 4096 8192
    (MemMap.fresh 8192 4096) rfl (by decide) (by decide) _ _ _ rfl)
  have conserved := secondary_cache_conserves second
  exact ⟨_, second, rfl, rfl, rfl, conserved.1, (conserved.2.2.2.2 _ rfl).2 (by decide)⟩

end CacheRun

end Scudo.Secondary
