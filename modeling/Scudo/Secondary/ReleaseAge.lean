import Scudo.Secondary.OldestTime

/-!
The cutoff of the release pass that ends a `store`. It is an unsigned difference, which wraps while
the clock is smaller than the release interval.
-/

namespace Scudo.Secondary
open Scudo.Lib

namespace CachedBlock

/-- A pass over the cache has released the pages of the entry. -/
def Released (before after : CachedBlock) : Prop := before.time ≠ 0 ∧ after.time = 0

/-- The entry is released by a pass with this cutoff. -/
theorem releaseIfOlderThan_released {entry : CachedBlock} {time oldestTime : Nat} :
    entry.Released (entry.releaseIfOlderThan time oldestTime).1 ↔
      entry.isValid = true ∧ entry.time ≠ 0 ∧ entry.time ≤ time := by
  unfold Released
  cases valid : entry.isValid with
  | false =>
    rw [releaseIfOlderThan_of_invalid valid]
    simp
  | true =>
    rw [releaseIfOlderThan_time valid]
    split_ifs with old
    · simp [old]
    · simp only [old, and_false, iff_false, not_and]
      exact id

end CachedBlock

namespace SlotCache

/-- An entry that the release pass visits: one of the array or of the quarantine. -/
def Visits (config : CacheConfig) (c : SlotCache) (entry : CachedBlock) : Prop :=
  (∃ slot ∈ List.range' 1 config.entriesArraySize, c.slots.entries slot = entry) ∨
    entry ∈ c.rest.quarantine

/-- The same place of the array or of the quarantine in two states of the cache. -/
def Turns (config : CacheConfig) (c c' : SlotCache) (before after : CachedBlock) : Prop :=
  (∃ slot ∈ List.range' 1 config.entriesArraySize,
      c.slots.entries slot = before ∧ c'.slots.entries slot = after) ∨
    ∃ i : Nat, c.rest.quarantine[i]? = some before ∧ c'.rest.quarantine[i]? = some after

/-- The pass at the end of a `store` that has read the clock value `time` releases the pages of an
entry only if its age is the interval at least, in nanoseconds. -/
def ReleasesOldOnly (config : CacheConfig) (c : SlotCache) (interval : Int) (time : Nat) : Prop :=
  ∀ before after, Turns config c (c.releaseAfterStore config interval time) before after →
    before.Released after → before.time + interval.toNat * 1000000 ≤ time

section Pass

variable {config : CacheConfig} {c : SlotCache} {before after : CachedBlock} {time : Nat}

theorem Turns.refl (turns : Turns config c c before after) : before = after := by
  rcases turns with ⟨slot, _, first, second⟩ | ⟨i, first, second⟩
  · rw [← first, second]
  · exact Option.some.inj (first.symm.trans second)

theorem releaseAll_getElem? (time : Nat) (entries : List CachedBlock) (oldestTime i : Nat)
    {entry : CachedBlock} (found : entries[i]? = some entry) :
    ∃ oldest, (Cache.releaseAll time entries oldestTime).1[i]? =
      some (entry.releaseIfOlderThan time oldest).1 := by
  induction entries generalizing oldestTime i with
  | nil => cases found
  | cons first rest ih =>
    cases i with
    | zero =>
      obtain rfl : first = entry := Option.some.inj found
      exact ⟨oldestTime, rfl⟩
    | succ i => exact ih (first.releaseIfOlderThan time oldestTime).2 i found

/-- Whether an entry of the array is released by the loop. -/
theorem releaseSlots_released {order : List Nat} {entries : Nat → CachedBlock}
    {oldestTime slot : Nat} (member : slot ∈ order) :
    (entries slot).Released ((releaseSlots time order entries oldestTime).1 slot) ↔
      (entries slot).isValid = true ∧ (entries slot).time ≠ 0 ∧ (entries slot).time ≤ time := by
  unfold CachedBlock.Released
  cases valid : (entries slot).isValid with
  | false =>
    rw [releaseSlots_of_invalid valid]
    simp
  | true =>
    rw [releaseSlots_time valid]
    by_cases old : (entries slot).time ≤ time
    · simp [member, old]
    · simp only [old, and_false, if_false, iff_false, not_and]
      exact id

/-- The pass is skipped, or it releases exactly the valid entries with a time up to its cutoff. -/
theorem releaseOlderThan_released
    (pass : ¬(c.slots.lruEntries.size = 0 ∨ c.rest.oldestTime = 0 ∨ time < c.rest.oldestTime))
    (turns : Turns config c (c.releaseOlderThan config time) before after) :
    before.Released after ↔ before.isValid = true ∧ before.time ≠ 0 ∧ before.time ≤ time := by
  unfold releaseOlderThan at turns
  rw [if_neg pass] at turns
  rcases turns with ⟨slot, member, rfl, rfl⟩ | ⟨i, found, found'⟩
  · exact releaseSlots_released member
  · obtain ⟨oldest, same⟩ := releaseAll_getElem? time c.rest.quarantine 0 i found
    obtain rfl := Option.some.inj (same.symm.trans found')
    exact CachedBlock.releaseIfOlderThan_released

/-- Every entry that the pass visits turns into one. -/
theorem Visits.turns {entry : CachedBlock} (visits : c.Visits config entry)
    (pass : ¬(c.slots.lruEntries.size = 0 ∨ c.rest.oldestTime = 0 ∨ time < c.rest.oldestTime)) :
    ∃ after, Turns config c (c.releaseOlderThan config time) entry after := by
  rcases visits with ⟨slot, member, same⟩ | member
  · exact ⟨_, .inl ⟨slot, member, same, rfl⟩⟩
  · obtain ⟨i, bound, same⟩ := List.getElem_of_mem member
    have found : c.rest.quarantine[i]? = some entry := List.getElem?_eq_some_iff.mpr ⟨bound, same⟩
    obtain ⟨oldest, turned⟩ := releaseAll_getElem? time c.rest.quarantine 0 i found
    refine ⟨(entry.releaseIfOlderThan time oldest).1, .inr ⟨i, found, ?_⟩⟩
    unfold releaseOlderThan
    rw [if_neg pass]
    exact turned

end Pass

/-- The cutoff of a `store` as a number: while the clock is smaller than the interval it is close
to the largest one. -/
theorem cutoff_eq {interval : Int} {time : Nat} (word : time < 2 ^ 64) (int : interval < 2 ^ 31) :
    wsub 64 time (wrap 64 (interval.toNat * 1000000)) =
      if interval.toNat * 1000000 ≤ time then time - interval.toNat * 1000000
      else time + 2 ^ 64 - interval.toNat * 1000000 := by
  have bound : interval.toNat * 1000000 < 2 ^ 64 := by omega
  rw [wrap_eq bound, wsub_ite word bound]

/-- `store` releases only entries that are old enough if and only if the clock has reached the
interval, or the pass finds nothing to release. -/
theorem releases_old_only_iff {config : CacheConfig} {c : SlotCache} {interval : Int} {time : Nat}
    (nonnegative : 0 ≤ interval) (int : interval < 2 ^ 31) (word : time < 2 ^ 64) :
    c.ReleasesOldOnly config interval time ↔
      interval.toNat * 1000000 ≤ time ∨ c.slots.lruEntries.size = 0 ∨ c.rest.oldestTime = 0 ∨
        time + 2 ^ 64 < c.rest.oldestTime + interval.toNat * 1000000 ∨
        ∀ entry, c.Visits config entry → entry.isValid = true → entry.time ≠ 0 →
          time + 2 ^ 64 < entry.time + interval.toNat * 1000000 := by
  have cutoff := cutoff_eq word int
  unfold ReleasesOldOnly releaseAfterStore
  rw [if_pos nonnegative]
  by_cases reached : interval.toNat * 1000000 ≤ time
  · rw [if_pos reached] at cutoff
    rw [cutoff]
    refine iff_of_true ?_ (.inl reached)
    intro before after turns released
    by_cases pass : c.slots.lruEntries.size = 0 ∨ c.rest.oldestTime = 0 ∨
        time - interval.toNat * 1000000 < c.rest.oldestTime
    · unfold releaseOlderThan at turns
      rw [if_pos pass] at turns
      rw [turns.refl] at released
      exact absurd released.2 released.1
    · have old := ((releaseOlderThan_released pass turns).mp released).2.2
      omega
  · rw [if_neg reached] at cutoff
    rw [cutoff]
    constructor
    · intro oldOnly
      by_contra condition
      simp only [not_or] at condition
      obtain ⟨_, occupied, dated, overtaken, visited⟩ := condition
      have pass : ¬(c.slots.lruEntries.size = 0 ∨ c.rest.oldestTime = 0 ∨
          time + 2 ^ 64 - interval.toNat * 1000000 < c.rest.oldestTime) := by omega
      apply visited
      intro entry visits valid nonzero
      by_contra before
      obtain ⟨after, turns⟩ := visits.turns pass
      have released := (releaseOlderThan_released pass turns).mpr ⟨valid, nonzero, by omega⟩
      have age := oldOnly entry after turns released
      omega
    · intro condition before after turns released
      exfalso
      by_cases pass : c.slots.lruEntries.size = 0 ∨ c.rest.oldestTime = 0 ∨
          time + 2 ^ 64 - interval.toNat * 1000000 < c.rest.oldestTime
      · unfold releaseOlderThan at turns
        rw [if_pos pass] at turns
        rw [turns.refl] at released
        exact released.1 released.2
      · obtain ⟨valid, nonzero, old⟩ := (releaseOlderThan_released pass turns).mp released
        have visits : c.Visits config before := by
          rcases turns with ⟨slot, member, same, _⟩ | ⟨i, found, _⟩
          · exact .inl ⟨slot, member, same⟩
          · exact .inr (List.mem_of_getElem? found)
        rcases condition with early | empty | unset | overtaken | visited
        · exact reached early
        · exact pass (.inl empty)
        · exact pass (.inr (.inl unset))
        · omega
        · have newer := visited before visits valid nonzero
          omega

/-- Two seconds after the start an entry of half a second is released, with an interval of one. -/
theorem releases_old_only_one_second :
    ∃ slots : Slots, (Slots.init 1 ⟨fun _ => 0, fun _ => 0⟩).insert
        ⟨4096, 4096, 4096, MemMap.fresh 4096 4096, 500000000⟩ = some slots ∧
      SlotCache.ReleasesOldOnly ⟨1, 0, 1, 8192, 0, 2 ^ 31 - 1, 1000⟩
        ⟨(Cache.init ⟨1, 0, 1, 8192, 0, 2 ^ 31 - 1, 1000⟩ 0).noteTime 500000000, slots⟩
        1000 2000000000 ∧
      ((SlotCache.releaseAfterStore ⟨1, 0, 1, 8192, 0, 2 ^ 31 - 1, 1000⟩
        ⟨(Cache.init ⟨1, 0, 1, 8192, 0, 2 ^ 31 - 1, 1000⟩ 0).noteTime 500000000, slots⟩
        1000 2000000000).slots.entries 1).time = 0 :=
  ⟨_, rfl, (releases_old_only_iff (by decide) (by decide) (by decide)).mpr (.inl (by decide)), rfl⟩

/-- The clock stands at half a second and the interval is one second: a `store` releases the
entry that it has just inserted. -/
theorem releases_young_entry :
    ∃ s : CacheThreads,
      (CacheThreads.system Platform.linux64 ⟨1, 0, 1, 8192, 0, 2 ^ 31 - 1, 1000⟩).Reachable s ∧
      s.phase 0 = .releasing 1000 500000000 ∧ (s.cache.slots.entries 1).time = 500000000 ∧
      ((s.cache.releaseAfterStore ⟨1, 0, 1, 8192, 0, 2 ^ 31 - 1, 1000⟩ 1000 500000000).slots.entries
        1).time = 0 ∧
      ¬s.cache.ReleasesOldOnly ⟨1, 0, 1, 8192, 0, 2 ^ 31 - 1, 1000⟩ 1000 500000000 := by
  let config : CacheConfig := ⟨1, 0, 1, 8192, 0, 2 ^ 31 - 1, 1000⟩
  let opts : Options := ⟨false, false⟩
  let start : CacheThreads := ⟨SlotCache.init config 0 ⟨fun _ => 0, fun _ => 0⟩, fun _ => .idle, 0⟩
  have started : (CacheThreads.system Platform.linux64 config).Reachable start :=
    .init ⟨⟨0, _, rfl⟩, fun _ => rfl⟩
  have counted := started.step (.count 0 4096 rfl (by decide) (by decide))
  have checked := counted.step (.check 0 4096 rfl (by decide))
  have ready := checked.step (.start 0 4096 rfl)
  have unlocked : CacheThreads.Unlocked (((start.move 0 (.counted 4096)).move 0
      (.checked 4096)).move 0 (.started 4096 1000)) :=
    .of_others 0 (by simp +contextual [CacheThreads.move, start]) id
  have storing := ready.step (.begin 0 4096 1000 opts 500000000 4096 4096
    (MemMap.fresh 4096 4096) rfl unlocked (by decide) (by decide) _ _ _ rfl)
  have inserted := storing.step (.insert 0 _ 1000 500000000 0 rfl (by decide) _ rfl)
  refine ⟨_, inserted, rfl, rfl, rfl, ?_⟩
  intro oldOnly
  have age := oldOnly _ _ (.inl ⟨1, by decide, rfl, rfl⟩) ⟨by decide, rfl⟩
  exact absurd age (by decide)

end SlotCache

end Scudo.Secondary
