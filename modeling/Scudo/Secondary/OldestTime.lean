import Scudo.Secondary.CacheThreads

/-!
`OldestTime` as a summary of the times in the cache. `store` sets it only when it is zero,
`retrieve` leaves it as it is, and `releaseOlderThan` computes it again.
-/

namespace Scudo.Secondary
open Scudo.Lib

/-- A time that is not zero has a lower bound that is not zero. -/
def Bounds (oldestTime time : Nat) : Prop := time ≠ 0 → oldestTime ≠ 0 ∧ oldestTime ≤ time

theorem Bounds.trans {a b c : Nat} (first : Bounds a b) (second : Bounds b c) : Bounds a c := by
  intro nonzero
  obtain ⟨middle, above⟩ := second nonzero
  obtain ⟨least, below⟩ := first middle
  exact ⟨least, below.trans above⟩

theorem Bounds.refl (a : Nat) : Bounds a a := fun nonzero => ⟨nonzero, le_rfl⟩

theorem Bounds.zero (a : Nat) : Bounds a 0 := fun nonzero => absurd rfl nonzero

namespace CachedBlock

variable {entry : CachedBlock} {time oldestTime : Nat}

theorem releaseIfOlderThan_of_invalid (invalid : entry.isValid = false) :
    entry.releaseIfOlderThan time oldestTime = (entry, oldestTime) := by
  unfold releaseIfOlderThan
  rw [if_pos (.inl invalid)]

/-- The pages of an entry that is not newer are released. -/
theorem releaseIfOlderThan_time (valid : entry.isValid = true) :
    (entry.releaseIfOlderThan time oldestTime).1.time =
      if entry.time ≤ time then 0 else entry.time := by
  unfold releaseIfOlderThan
  by_cases zero : entry.time = 0
  · rw [if_pos (.inr zero), zero, if_pos (Nat.zero_le time)]
  · have proceeds : ¬(entry.isValid = false ∨ entry.time = 0) := by simp [valid, zero]
    rw [if_neg proceeds]
    by_cases newer : time < entry.time
    · rw [if_pos newer, if_neg (not_le.mpr newer)]
    · rw [if_neg newer, if_pos (not_lt.mp newer)]

/-- `OldestTime` takes the time of an entry that stays. -/
theorem releaseIfOlderThan_bounds (valid : entry.isValid = true) :
    Bounds (entry.releaseIfOlderThan time oldestTime).2
      (entry.releaseIfOlderThan time oldestTime).1.time := by
  unfold releaseIfOlderThan
  by_cases zero : entry.time = 0
  · rw [if_pos (.inr zero)]
    exact fun nonzero => absurd zero nonzero
  · have proceeds : ¬(entry.isValid = false ∨ entry.time = 0) := by simp [valid, zero]
    rw [if_neg proceeds]
    by_cases newer : time < entry.time
    · rw [if_pos newer]
      intro nonzero
      dsimp only at nonzero ⊢
      split_ifs <;> omega
    · rw [if_neg newer]
      exact Bounds.zero _

/-- `OldestTime` does not grow, unless it was zero. -/
theorem releaseIfOlderThan_oldest :
    Bounds (entry.releaseIfOlderThan time oldestTime).2 oldestTime ∧
      ((entry.releaseIfOlderThan time oldestTime).2 = oldestTime ∨
        entry.isValid = true ∧ (entry.releaseIfOlderThan time oldestTime).2 = entry.time) := by
  unfold releaseIfOlderThan
  by_cases skip : entry.isValid = false ∨ entry.time = 0
  · rw [if_pos skip]
    exact ⟨Bounds.refl _, .inl rfl⟩
  · rw [if_neg skip]
    rw [not_or, Bool.not_eq_false] at skip
    by_cases newer : time < entry.time
    · rw [if_pos newer]
      unfold Bounds
      dsimp only
      split_ifs with lower
      · exact ⟨fun nonzero => ⟨skip.2, by omega⟩, .inr ⟨skip.1, rfl⟩⟩
      · exact ⟨fun nonzero => ⟨nonzero, le_rfl⟩, .inl rfl⟩
    · rw [if_neg newer]
      exact ⟨Bounds.refl _, .inl rfl⟩

end CachedBlock

namespace SlotCache

section ReleaseLoop

variable {time : Nat} {order : List Nat} {entries : Nat → CachedBlock} {oldestTime slot : Nat}

/-- The loop releases the pages of the entries in its slots that are not newer than `time`. -/
theorem releaseSlots_time (valid : (entries slot).isValid = true) :
    ((releaseSlots time order entries oldestTime).1 slot).time =
      if slot ∈ order ∧ (entries slot).time ≤ time then 0 else (entries slot).time := by
  induction order generalizing entries oldestTime with
  | nil => simp [releaseSlots]
  | cons first later ih =>
    rw [releaseSlots]
    by_cases same : slot = first
    · subst same
      have valid' : ((entries slot).releaseIfOlderThan time oldestTime).1.isValid =
          (entries slot).isValid := CachedBlock.releaseIfOlderThan_isValid
      rw [ih (by rw [Function.update_self, valid', valid]), Function.update_self,
        CachedBlock.releaseIfOlderThan_time valid]
      by_cases old : (entries slot).time ≤ time
      · simp [old]
      · simp [old]
    · rw [ih (by rw [Function.update_of_ne same, valid]), Function.update_of_ne same]
      simp [same]

/-- The loop leaves the slots alone that hold no entry. -/
theorem releaseSlots_of_invalid (invalid : (entries slot).isValid = false) :
    (releaseSlots time order entries oldestTime).1 slot = entries slot := by
  induction order generalizing entries oldestTime with
  | nil => rfl
  | cons first later ih =>
    rw [releaseSlots]
    by_cases same : slot = first
    · subst same
      rw [CachedBlock.releaseIfOlderThan_of_invalid invalid, Function.update_eq_self]
      exact ih invalid
    · rw [ih (by rw [Function.update_of_ne same, invalid]), Function.update_of_ne same]

/-- The loop leaves a lower bound of the times in its slots. -/
theorem releaseSlots_bounds :
    Bounds (releaseSlots time order entries oldestTime).2 oldestTime ∧
      (slot ∈ order → (entries slot).isValid = true →
        Bounds (releaseSlots time order entries oldestTime).2
          ((releaseSlots time order entries oldestTime).1 slot).time) := by
  induction order generalizing entries oldestTime with
  | nil => exact ⟨Bounds.refl _, nofun⟩
  | cons first later ih =>
    rw [releaseSlots]
    obtain ⟨lower, others⟩ := @ih
      (Function.update entries first ((entries first).releaseIfOlderThan time oldestTime).1)
      ((entries first).releaseIfOlderThan time oldestTime).2
    refine ⟨lower.trans CachedBlock.releaseIfOlderThan_oldest.1, ?_⟩
    intro member valid
    have valid' : (Function.update entries first
        ((entries first).releaseIfOlderThan time oldestTime).1 slot).isValid = true := by
      by_cases same : slot = first
      · rw [same, Function.update_self, CachedBlock.releaseIfOlderThan_isValid, ← same]
        exact valid
      · rw [Function.update_of_ne same]
        exact valid
    by_cases inLater : slot ∈ later
    · exact others inLater valid'
    · obtain rfl : slot = first := by
        rcases List.mem_cons.mp member with same | inLater'
        · exact same
        · exact absurd inLater' inLater
      rw [releaseSlots_time valid', if_neg (fun both => inLater both.1), Function.update_self]
      exact lower.trans (CachedBlock.releaseIfOlderThan_bounds valid)

/-- The new `OldestTime` is the old one or the time of an entry. -/
theorem releaseSlots_source {limit : Nat} (start : oldestTime ≤ limit)
    (past : ∀ slot ∈ order, (entries slot).isValid = true → (entries slot).time ≤ limit) :
    (releaseSlots time order entries oldestTime).2 ≤ limit := by
  induction order generalizing entries oldestTime with
  | nil => exact start
  | cons first later ih =>
    rw [releaseSlots]
    apply ih
    · rcases CachedBlock.releaseIfOlderThan_oldest.2 with same | ⟨valid, taken⟩
      · rw [same]
        exact start
      · rw [taken]
        exact past first List.mem_cons_self valid
    · intro slot member valid
      by_cases same : slot = first
      · rw [same, Function.update_self] at valid ⊢
        rw [CachedBlock.releaseIfOlderThan_isValid] at valid
        rw [CachedBlock.releaseIfOlderThan_time valid]
        split_ifs
        · exact Nat.zero_le limit
        · exact past first List.mem_cons_self valid
      · rw [Function.update_of_ne same] at valid ⊢
        exact past slot (List.mem_cons_of_mem _ member) valid

end ReleaseLoop

/-- `OldestTime` is a lower bound of the times in the list, and the clock an upper bound of all. -/
structure Dated (c : SlotCache) (clock : Nat) : Prop where
  bounds : ∀ slot ∈ c.slots.lru, Bounds c.rest.oldestTime (c.slots.entries slot).time
  past : ∀ slot ∈ c.slots.lru, (c.slots.entries slot).time ≤ clock
  oldest : c.rest.oldestTime ≤ clock

section Operations

variable {config : CacheConfig} {c c' : SlotCache} {live free : List Nat} {clock : Nat}

theorem Dated.mono (dated : c.Dated clock) {later : Nat} (order : clock ≤ later) :
    c.Dated later where
  bounds := dated.bounds
  past := fun slot member => (dated.past slot member).trans order
  oldest := dated.oldest.trans order

/-- Entries that leave the list, with the others as they were. -/
theorem Dated.of_subset (dated : c.Dated clock) (fewer : c'.slots.lru ⊆ c.slots.lru)
    (kept : ∀ slot ∈ c'.slots.lru, c'.slots.entries slot = c.slots.entries slot)
    (oldest : c'.rest.oldestTime = c.rest.oldestTime) : c'.Dated clock where
  bounds := by
    intro slot member
    rw [oldest, kept slot member]
    exact dated.bounds slot (fewer member)
  past := by
    intro slot member
    rw [kept slot member]
    exact dated.past slot (fewer member)
  oldest := oldest ▸ dated.oldest

theorem noteTime_oldestTime (cache : Cache) (time : Nat) :
    (cache.noteTime time).oldestTime = if cache.oldestTime = 0 then time else cache.oldestTime := by
  unfold Cache.noteTime
  split_ifs <;> rfl

/-- The entry that is inserted has the time of the clock, or none. -/
theorem Dated.insert (dated : c.Dated clock) (intact : c.Intact config live free)
    {entry : CachedBlock} (valid : entry.isValid = true)
    (fresh : entry.time = 0 ∨ entry.time = clock) {slots : Slots}
    (run : c.slots.insert entry = some slots) :
    Dated ⟨c.rest.noteTime entry.time, slots⟩ clock := by
  obtain ⟨slot, free', intact', new, kept⟩ := intact.insert valid run
  have list : slots.lru = slot :: live := intact'.tracks.lru_eq
  have list' : c.slots.lru = live := intact.tracks.lru_eq
  have bounds := dated.bounds
  have past := dated.past
  have oldest := dated.oldest
  rw [list'] at bounds past
  refine ⟨?_, ?_, ?_⟩
  · change ∀ slot ∈ slots.lru, Bounds (c.rest.noteTime entry.time).oldestTime _
    rw [list, noteTime_oldestTime]
    refine List.forall_mem_cons.mpr ⟨?_, ?_⟩
    · rw [new]
      intro nonzero
      split_ifs with unset <;> omega
    · intro other member nonzero
      rw [kept other member] at nonzero ⊢
      obtain ⟨set, below⟩ := bounds other member nonzero
      rw [if_neg set]
      exact ⟨set, below⟩
  · change ∀ slot ∈ slots.lru, _
    rw [list]
    refine List.forall_mem_cons.mpr ⟨?_, ?_⟩
    · rw [new]
      omega
    · intro other member
      rw [kept other member]
      exact past other member
  · change (c.rest.noteTime entry.time).oldestTime ≤ clock
    rw [noteTime_oldestTime]
    split_ifs <;> omega

/-- Without a quarantine the release pass starts from `OldestTime` zero and visits every slot. -/
theorem releaseOlderThan_pass (length : c.rest.quarantine.length = 0) {time : Nat}
    (pass : ¬(c.slots.lruEntries.size = 0 ∨ c.rest.oldestTime = 0 ∨ time < c.rest.oldestTime)) :
    (c.releaseOlderThan config time).slots.entries =
        (releaseSlots time (List.range' 1 config.entriesArraySize) c.slots.entries 0).1 ∧
      (c.releaseOlderThan config time).rest.oldestTime =
        (releaseSlots time (List.range' 1 config.entriesArraySize) c.slots.entries 0).2 := by
  have empty := List.eq_nil_of_length_eq_zero length
  unfold SlotCache.releaseOlderThan
  rw [if_neg pass, empty]
  exact ⟨rfl, rfl⟩

theorem releaseOlderThan_lru (config : CacheConfig) (c : SlotCache) (time : Nat) :
    (c.releaseOlderThan config time).slots.lru = c.slots.lru := by
  unfold SlotCache.releaseOlderThan
  split_ifs <;> rfl

theorem Intact.lru_slot (intact : c.Intact config live free) {slot : Nat}
    (member : slot ∈ c.slots.lru) :
    slot ∈ List.range' 1 config.entriesArraySize ∧ (c.slots.entries slot).isValid = true := by
  rw [intact.tracks.lru_eq] at member
  exact ⟨intact.tracks.all.mem_iff.mp (List.mem_append_left _ member), intact.valid slot member⟩

/-- No entry of the list that is not newer keeps its time, whether the pass is skipped or not. -/
theorem Dated.released (dated : c.Dated clock) (intact : c.Intact config live free)
    (length : config.quarantineSize = 0) (time : Nat) {slot : Nat} (member : slot ∈ c.slots.lru) :
    ((c.releaseOlderThan config time).slots.entries slot).time =
      if (c.slots.entries slot).time ≤ time then 0 else (c.slots.entries slot).time := by
  have bounds := dated.bounds slot member
  obtain ⟨inArray, valid⟩ := intact.lru_slot member
  by_cases pass : c.slots.lruEntries.size = 0 ∨ c.rest.oldestTime = 0 ∨ time < c.rest.oldestTime
  · unfold SlotCache.releaseOlderThan
    rw [if_pos pass]
    have occupied : c.slots.lruEntries.size ≠ 0 := by
      rw [intact.tracks.lru.size]
      rw [intact.tracks.lru_eq] at member
      exact (List.length_pos_of_mem member).ne'
    -- with `OldestTime` zero the entry has no time, and otherwise it is newer
    unfold Bounds at bounds
    split_ifs <;> omega
  · rw [(releaseOlderThan_pass (intact.length.trans length) pass).1, releaseSlots_time valid]
    simp only [inArray, true_and]

theorem Dated.releaseOlderThan (dated : c.Dated clock) (intact : c.Intact config live free)
    (length : config.quarantineSize = 0) (time : Nat) :
    (c.releaseOlderThan config time).Dated clock := by
  by_cases pass : c.slots.lruEntries.size = 0 ∨ c.rest.oldestTime = 0 ∨ time < c.rest.oldestTime
  · unfold SlotCache.releaseOlderThan
    rw [if_pos pass]
    exact dated
  · obtain ⟨entries, oldest⟩ := releaseOlderThan_pass (intact.length.trans length) pass
    refine ⟨?_, ?_, ?_⟩
    · intro slot member
      rw [releaseOlderThan_lru] at member
      obtain ⟨inArray, valid⟩ := intact.lru_slot member
      rw [entries, oldest]
      exact releaseSlots_bounds.2 inArray valid
    · intro slot member
      rw [releaseOlderThan_lru] at member
      rw [dated.released intact length time member]
      split_ifs
      · exact Nat.zero_le clock
      · exact dated.past slot member
    · rw [oldest]
      apply releaseSlots_source (Nat.zero_le clock)
      intro slot member valid
      -- a slot with a valid entry is in the list
      rcases List.mem_append.mp (intact.tracks.all.mem_iff.mpr member) with listed | unused
      · exact dated.past slot (intact.tracks.lru_eq ▸ listed)
      · rw [intact.unused slot unused] at valid
        cases valid

end Operations

end SlotCache

namespace CacheThreads

/-- The runs under a positive clock that does not go back. -/
def timed (p : Platform) (config : CacheConfig) : System CacheThreads :=
  ⟨fun s => Initial config s ∧ 0 < s.clock ∧ s.clock < 2 ^ 64,
    fun s s' => Step p config s s' ∧ s.clock ≤ s'.clock⟩

/-- The entry of a `store` in its loop has the time that was read under the lock, or none. -/
def StoresNow (clock : Nat) : StorePhase → Prop
  | .evicting entry _ _ _ => entry.time = 0 ∨ entry.time = clock
  | _ => True

structure Dated (s : CacheThreads) : Prop where
  cache : s.cache.Dated s.clock
  stores : ∀ t, StoresNow s.clock (s.phase t)
  started : 0 < s.clock
  word : s.clock < 2 ^ 64

section Runs

variable {p : Platform} {config : CacheConfig} {s s' : CacheThreads}

theorem StoresNow.of_not_locks {clock : Nat} {phase : StorePhase} (free : ¬phase.Locks) :
    StoresNow clock phase := by
  cases phase with
  | evicting entry interval time evicted => exact absurd trivial free
  | _ => trivial

/-- The clock stays, and one thread moves. -/
theorem Dated.of_update (dated : s.Dated) {cache : SlotCache} {t : Nat} {new : StorePhase}
    (cached : cache.Dated s.clock) (stores : StoresNow s.clock new) :
    ((s.setCache cache).move t new).Dated where
  cache := cached
  stores := forall_update (fun r _ => dated.stores r) stores
  started := dated.started
  word := dated.word

theorem Dated.setCache (dated : s.Dated) {cache : SlotCache} (cached : cache.Dated s.clock) :
    (s.setCache cache).Dated :=
  ⟨cached, dated.stores, dated.started, dated.word⟩

theorem storedEntry_time (opts : Options) (interval : Int)
    (now commitBase commitSize blockBegin : Nat) (memMap : MemMap) :
    (Cache.storedEntry opts interval now commitBase commitSize blockBegin memMap).time = 0 ∨
      (Cache.storedEntry opts interval now commitBase commitSize blockBegin memMap).time = now := by
  unfold Cache.storedEntry
  split_ifs
  · exact .inl rfl
  · exact .inr rfl

/-- Without a quarantine `store` goes on with its own entry. -/
theorem beginStore_unquarantined {opts : Options} {cache rest : Cache} {entry : CachedBlock}
    {out : Option CachedBlock} {unmap : Option MemMap} (length : config.quarantineSize = 0)
    (run : SlotCache.beginStore config opts cache entry = (rest, out, unmap)) :
    rest = cache ∧ ∀ kept, out = some kept → kept = entry := by
  unfold SlotCache.beginStore at run
  split_ifs at run with disabled quarantines
  · cases run
    exact ⟨rfl, nofun⟩
  · exact absurd length quarantines.1
  · cases run
    exact ⟨rfl, fun kept same => (Option.some.inj same).symm⟩

theorem Dated.step (sound : s.Sound config) (dated : s.Dated) (length : config.quarantineSize = 0)
    (step : Step p config s s') (forward : s.clock ≤ s'.clock) : s'.Dated := by
  obtain ⟨live, free, intact⟩ := sound.intact
  cases step with
  | count t size found word positive => exact dated.of_update dated.cache trivial
  | check t size found small => exact dated.of_update dated.cache trivial
  | refuse t size found large => exact dated.of_update dated.cache trivial
  | start t size found => exact dated.of_update dated.cache trivial
  | begin t size interval opts now commitBase blockBegin memMap found unlocked time mapped rest entry
      unmap run =>
    obtain ⟨same, kept⟩ := beginStore_unquarantined length run
    have advanced := dated.cache.mono forward
    refine ⟨?_, ?_, dated.started.trans_le forward, time⟩
    · exact advanced.of_subset (List.Subset.refl _) (fun _ _ => rfl) (same ▸ rfl)
    · refine forall_update (fun r _ => StoresNow.of_not_locks (unlocked r)) ?_
      cases entry with
      | none =>
        unfold afterQuarantine
        split_ifs <;> trivial
      | some entry =>
        rw [kept entry rfl]
        exact storedEntry_time opts interval now commitBase size blockBegin memMap
  | evict t entry interval time evicted found full occupied slots run =>
    obtain ⟨left, free', intact', fewer, kept, _⟩ := intact.evict occupied run
    have stores := dated.stores t
    rw [found] at stores
    refine dated.of_update (dated.cache.of_subset ?_ ?_ rfl) stores
    · change slots.lru ⊆ _
      rw [intact'.tracks.lru_eq, intact.tracks.lru_eq]
      exact fewer
    · change ∀ slot ∈ slots.lru, _
      rw [intact'.tracks.lru_eq]
      exact kept
  | crash t entry interval time evicted found full broken =>
    exact dated.of_update dated.cache trivial
  | insert t entry interval time evicted found room slots run =>
    have ok := sound.phases t
    have stores := dated.stores t
    rw [found] at ok stores
    exact dated.of_update (dated.cache.insert intact ok.1 stores run) trivial
  | noRoom t entry interval time evicted found room run =>
    exact dated.of_update dated.cache trivial
  | release t interval time found unlocked =>
    refine dated.of_update ?_ trivial
    unfold SlotCache.releaseAfterStore
    split_ifs
    · exact dated.cache.releaseOlderThan intact length _
    · exact dated.cache
  | retrieve maxAllowedFragmentedPages size alignment headersSize unlocked out cache run =>
    obtain ⟨live', free', intact', fewer, kept, _, _, oldest⟩ := intact.retrieve run
    refine dated.setCache (dated.cache.of_subset ?_ ?_ oldest)
    · rw [intact'.tracks.lru_eq, intact.tracks.lru_eq]
      exact fewer
    · rw [intact'.tracks.lru_eq]
      exact kept
  | releaseToOS unlocked => exact dated.setCache (dated.cache.releaseOlderThan intact length _)
  | setOption o value =>
    obtain ⟨_, oldest, _⟩ := SlotCache.setOption_rest config p s.cache.rest o value
    exact dated.setCache (dated.cache.of_subset (List.Subset.refl _) (fun _ _ => rfl) oldest)

theorem timed_dated (length : config.quarantineSize = 0)
    (reached : (timed p config).Reachable s) : s.Sound config ∧ s.Dated := by
  apply reached.invariant
  · rintro s ⟨initial, started, word⟩
    refine ⟨initial.sound, ?_, ?_, started, word⟩
    · obtain ⟨⟨releaseToOsInterval, links, cache⟩, _⟩ := initial
      have empty : s.cache.slots.lru = [] := by
        rw [cache]
        exact (SlotCache.init_intact config releaseToOsInterval links).tracks.lru_eq
      have oldest : s.cache.rest.oldestTime = 0 := by
        rw [cache]
        rfl
      refine ⟨?_, ?_, oldest ▸ Nat.zero_le _⟩
      · rw [empty]
        nofun
      · rw [empty]
        nofun
    · intro t
      rw [initial.2 t]
      trivial
  · rintro s s' ⟨sound, dated⟩ ⟨step, forward⟩
    exact ⟨sound.step step, dated.step sound length step forward⟩

end Runs

/-- Without a quarantine, in every run under a positive clock that does not go back: `OldestTime`
is zero only if no entry of the list has a time, and a lower bound of all times otherwise. So
`releaseOlderThan` leaves no entry with a time up to its cutoff, and `releaseToOS` none at all. -/
theorem release_misses_no_entry {p : Platform} {config : CacheConfig} {s : CacheThreads}
    (length : config.quarantineSize = 0) (reached : (timed p config).Reachable s) :
    (s.cache.rest.oldestTime = 0 → ∀ slot ∈ s.cache.slots.lru,
        (s.cache.slots.entries slot).time = 0) ∧
      (s.cache.rest.oldestTime ≠ 0 → ∀ slot ∈ s.cache.slots.lru,
        (s.cache.slots.entries slot).time ≠ 0 →
          s.cache.rest.oldestTime ≤ (s.cache.slots.entries slot).time) ∧
      (∀ time, ∀ slot ∈ (s.cache.releaseOlderThan config time).slots.lru,
        ¬(0 < ((s.cache.releaseOlderThan config time).slots.entries slot).time ∧
          ((s.cache.releaseOlderThan config time).slots.entries slot).time ≤ time)) ∧
      ∀ slot ∈ (s.cache.releaseOlderThan config (2 ^ 64 - 1)).slots.lru,
        ((s.cache.releaseOlderThan config (2 ^ 64 - 1)).slots.entries slot).time = 0 := by
  obtain ⟨sound, dated⟩ := timed_dated length reached
  obtain ⟨live, free, intact⟩ := sound.intact
  refine ⟨?_, ?_, ?_, ?_⟩
  · intro unset slot member
    by_contra nonzero
    exact (dated.cache.bounds slot member nonzero).1 unset
  · intro _ slot member nonzero
    exact (dated.cache.bounds slot member nonzero).2
  · intro time slot member
    rw [SlotCache.releaseOlderThan_lru] at member
    rw [dated.cache.released intact length time member]
    split_ifs <;> omega
  · intro slot member
    rw [SlotCache.releaseOlderThan_lru] at member
    have past := dated.cache.past slot member
    have word := dated.word
    rw [dated.cache.released intact length _ member, if_pos (by omega)]

/-- A `store` of a whole mapping that no other thread interrupts, where the list has room. -/
def storeAlone (config : CacheConfig) (c : SlotCache) (now base size : Nat) : Option SlotCache :=
  let interval := c.rest.releaseToOsIntervalMs
  let entry := Cache.storedEntry ⟨false, false⟩ interval now base size base (MemMap.fresh base size)
  if size ≤ c.rest.maxEntrySize ∧ c.slots.lruEntries.size < c.rest.maxEntriesCount then
    (c.slots.insert entry).map fun slots =>
      SlotCache.releaseAfterStore config ⟨c.rest.noteTime entry.time, slots⟩ interval now
  else none

/-- The steps of one thread add up to it. -/
theorem reachable_storeAlone {p : Platform} {config : CacheConfig} {c c' : SlotCache}
    {clock now base size : Nat}
    (reached : (timed p config).Reachable ⟨c, fun _ => .idle, clock⟩) (later : clock ≤ now)
    (word : now < 2 ^ 64) (mapped : base ≠ 0) (fits : size < 2 ^ p.word.bits)
    (run : storeAlone config c now base size = some c') :
    (timed p config).Reachable ⟨c', fun _ => .idle, now⟩ := by
  simp only [storeAlone, Option.ite_none_right_eq_some] at run
  obtain ⟨⟨small, room⟩, run⟩ := run
  obtain ⟨slots, insert, rfl⟩ := Option.map_eq_some_iff.mp run
  have positive : c.rest.maxEntriesCount ≠ 0 := by omega
  have plain : ∀ rest entry, SlotCache.beginStore config ⟨false, false⟩ rest entry =
      (rest, some entry, none) := by
    intro rest entry
    simp [SlotCache.beginStore]
  have counted := reached.step ⟨.count 0 size rfl fits positive, le_rfl⟩
  have checked := counted.step ⟨.check 0 size rfl small, le_rfl⟩
  have ready := checked.step ⟨.start 0 size rfl, le_rfl⟩
  have unlocked : Unlocked ((((⟨c, fun _ => .idle, clock⟩ : CacheThreads).move 0
      (.counted size)).move 0 (.checked size)).move 0
        (.started size c.rest.releaseToOsIntervalMs)) :=
    .of_others 0 (by simp +contextual [move]) id
  have storing := ready.step ⟨.begin 0 size _ ⟨false, false⟩ now base base (MemMap.fresh base size)
    rfl unlocked word mapped _ _ _ (plain _ _), later⟩
  have inserted := storing.step ⟨.insert 0 _ _ now 0 rfl room slots insert, le_rfl⟩
  have released := inserted.step ⟨.release 0 _ now rfl
    (.of_others 0 (by simp +contextual [move, setCache]) id), le_rfl⟩
  convert released using 1
  simp [move, setCache]

/-- Two entries of up to 1 MB that are released after a millisecond. -/
def twoSlots : CacheConfig := ⟨2, 0, 2, 2 ^ 20, 1, 1, 1⟩

/-- 8 pages are stored at 5 ms, 16 pages at 5.5 ms, and a request of 20000 bytes takes the
first ones. -/
def storedTwice : Option SlotCache :=
  (storeAlone twoSlots (SlotCache.init twoSlots 0 ⟨fun _ => 0, fun _ => 0⟩) 5000000 (2 ^ 24)
    (8 * 4096)).bind fun c => storeAlone twoSlots c 5500000 (2 ^ 25) (16 * 4096)

/-- `OldestTime` stays that of the entry that is gone; the other entry has a later time, and
`releaseToOS` takes it. -/
theorem release_misses_no_entry_two_stores :
    ∃ c out c', storedTwice = some c ∧ c.slots.lru = [2, 1] ∧
      (∀ slot ∈ (c.releaseOlderThan twoSlots (2 ^ 64 - 1)).slots.lru,
        ((c.releaseOlderThan twoSlots (2 ^ 64 - 1)).slots.entries slot).time = 0) ∧
      c.retrieve Platform.linux64 8 20000 16 80 = some (out, c') ∧ c'.slots.lru = [2] ∧
      c'.rest.oldestTime = 5000000 ∧ (c'.slots.entries 2).time = 5500000 ∧
      c'.rest.oldestTime ≤ (c'.slots.entries 2).time ∧
      ((c'.releaseOlderThan twoSlots (2 ^ 64 - 1)).slots.entries 2).time = 0 := by
  have shape : storedTwice.map (fun c => (c.slots.lru,
      (c.retrieve Platform.linux64 8 20000 16 80).map fun r =>
        (r.2.slots.lru, r.2.rest.oldestTime, (r.2.slots.entries 2).time))) =
      some ([2, 1], some ([2], 5000000, 5500000)) := by
    decide +kernel
  obtain ⟨c, stored, rest⟩ := Option.map_eq_some_iff.mp shape
  simp only [Prod.mk.injEq, Option.map_eq_some_iff] at rest
  obtain ⟨both, ⟨out, c'⟩, retrieve, one, oldest, time⟩ := rest
  dsimp only at one oldest time
  have start : (timed Platform.linux64 twoSlots).Reachable
      ⟨SlotCache.init twoSlots 0 ⟨fun _ => 0, fun _ => 0⟩, fun _ => .idle, 1⟩ :=
    .init ⟨⟨⟨0, _, rfl⟩, fun _ => rfl⟩, by decide, by decide⟩
  obtain ⟨first, storeFirst, storeSecond⟩ := Option.bind_eq_some_iff.mp stored
  have reached := reachable_storeAlone (reachable_storeAlone start (by decide) (by decide)
    (by decide) (by decide) storeFirst) (by decide) (by decide) (by decide) (by decide) storeSecond
  have unlocked : Unlocked ⟨c, fun _ => .idle, 5500000⟩ := fun _ locks => locks
  have retrieved := reached.step ⟨.retrieve 8 20000 16 80 unlocked out c' retrieve, le_rfl⟩
  have safe := release_misses_no_entry rfl reached
  have safe' := release_misses_no_entry rfl retrieved
  have member : 2 ∈ (c'.releaseOlderThan twoSlots (2 ^ 64 - 1)).slots.lru := by
    rw [SlotCache.releaseOlderThan_lru, one]
    exact List.mem_singleton_self 2
  refine ⟨c, out, c', stored, both, safe.2.2.2, retrieve, one, oldest, time, ?_,
    safe'.2.2.2 2 member⟩
  apply safe'.2.1
  · change c'.rest.oldestTime ≠ 0
    omega
  · change 2 ∈ c'.slots.lru
    simp [one]
  · change (c'.slots.entries 2).time ≠ 0
    omega

end CacheThreads

end Scudo.Secondary
