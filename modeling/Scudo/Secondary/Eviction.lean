import Scudo.Secondary.CacheThreads

/-!
The eviction loop of `MapAllocatorCache::store`. It reads `MaxEntriesCount` again in every round,
so it finds an empty list when a `setOption` has set the count to zero since `canCache`.
-/

namespace Scudo.Secondary
open Scudo.Lib

namespace CacheThreads

/-- A `setOption` with this value disables the cache while a `store` relies on its `canCache`. -/
def Disables (config : CacheConfig) (s : CacheThreads) (value : Int) : Prop :=
  0 ≤ value ∧ min (wrap 32 value.toNat) config.entriesArraySize = 0 ∧ ∃ t, (s.phase t).Pending

/-- The runs in which no `setOption` does this. -/
def undisturbed (p : Platform) (config : CacheConfig) : System CacheThreads :=
  ⟨Initial config, fun s s' => Step p config s s' ∧ ∀ value, s.Disables config value →
    s' ≠ s.setCache
      ⟨(s.cache.rest.setOption config p .maxCacheEntriesCount value).2, s.cache.slots⟩⟩

/-- The cache is enabled for every `store` that relies on it, and no thread has crashed. -/
structure Steady (s : CacheThreads) : Prop where
  enabled : ∀ t, (s.phase t).Pending → s.cache.rest.maxEntriesCount ≠ 0
  runs : ∀ t, s.phase t ≠ .crashed

section Runs

variable {p : Platform} {config : CacheConfig} {s s' : CacheThreads}

/-- One thread moves and `MaxEntriesCount` stays. -/
theorem Steady.of_update (steady : s.Steady) {t : Nat} {new : StorePhase}
    (count : s'.cache.rest.maxEntriesCount = s.cache.rest.maxEntriesCount)
    (phase : s'.phase = Function.update s.phase t new)
    (enabled : new.Pending → s.cache.rest.maxEntriesCount ≠ 0) (runs : new ≠ .crashed) :
    s'.Steady where
  enabled := by
    rw [count, phase]
    exact forall_update (P := fun phase => phase.Pending → s.cache.rest.maxEntriesCount ≠ 0)
      (fun r _ => steady.enabled r) enabled
  runs := by
    rw [phase]
    exact forall_update (P := fun phase => phase ≠ .crashed) (fun r _ => steady.runs r) runs

/-- No thread moves and `MaxEntriesCount` stays. -/
theorem Steady.of_cache (steady : s.Steady) {cache : SlotCache}
    (count : cache.rest.maxEntriesCount = s.cache.rest.maxEntriesCount) :
    (s.setCache cache).Steady where
  enabled := fun t pending => by
    change cache.rest.maxEntriesCount ≠ 0
    rw [count]
    exact steady.enabled t pending
  runs := steady.runs

/-- A round of the loop removes the last entry of the list. -/
theorem Sound.round (sound : s.Sound config)
    (enabled : s.cache.rest.maxEntriesCount ≠ 0)
    (full : s.cache.rest.maxEntriesCount ≤ s.cache.slots.lruEntries.size) :
    s.cache.slots.lruEntries.size ≠ 0 ∧
      s.cache.slots.lruEntries.last ∈ s.cache.slots.lru ∧
      (s.cache.slots.entries s.cache.slots.lruEntries.last).isValid = true ∧
      ∃ slots, s.cache.slots.remove s.cache.slots.lruEntries.last = some slots ∧
        slots.lruEntries.size + 1 = s.cache.slots.lruEntries.size := by
  obtain ⟨live, free, intact⟩ := sound.intact
  have occupied : s.cache.slots.lruEntries.size ≠ 0 := by omega
  obtain ⟨left, slots, shape, run, size⟩ := intact.last occupied
  have member : s.cache.slots.lruEntries.last ∈ live := by
    rw [shape]
    exact List.mem_append_right _ List.mem_cons_self
  refine ⟨occupied, ?_, intact.valid _ member, slots, run, size⟩
  rw [intact.tracks.lru_eq]
  exact member

theorem Steady.step (sound : s.Sound config) (steady : s.Steady) (step : Step p config s s')
    (careful : ∀ value, s.Disables config value → s' ≠ s.setCache
      ⟨(s.cache.rest.setOption config p .maxCacheEntriesCount value).2, s.cache.slots⟩) :
    s'.Steady := by
  obtain ⟨live, free, intact⟩ := sound.intact
  -- a `store` that goes on was pending before
  have goesOn : ∀ {t phase}, s.phase t = phase → phase.Pending →
      s.cache.rest.maxEntriesCount ≠ 0 := by
    intro t phase found pending
    exact steady.enabled t (found ▸ pending)
  cases step with
  | count t size found word positive =>
    exact steady.of_update rfl rfl (fun _ => positive) nofun
  | check t size found small =>
    exact steady.of_update rfl rfl (fun _ => goesOn found trivial) nofun
  | refuse t size found large => exact steady.of_update rfl rfl nofun nofun
  | start t size found =>
    exact steady.of_update rfl rfl (fun _ => goesOn found trivial) nofun
  | begin t size interval opts now commitBase blockBegin memMap found unlocked time mapped rest entry
      unmap run =>
    have valid : (Cache.storedEntry opts interval now commitBase size blockBegin memMap).isValid =
        true := CacheRun.storedEntry_isValid opts interval mapped
    obtain ⟨count, _, _⟩ := SlotCache.beginStore_rest intact.length valid run
    refine steady.of_update count rfl (fun _ => goesOn found trivial) ?_
    unfold afterQuarantine
    cases entry with
    | none => split_ifs <;> exact nofun
    | some entry => exact nofun
  | evict t entry interval time evicted found full occupied slots run =>
    exact steady.of_update rfl rfl (fun _ => goesOn found trivial) nofun
  | crash t entry interval time evicted found full broken =>
    obtain ⟨occupied, _, _, slots, run, _⟩ := sound.round (goesOn found trivial) full
    rcases broken with empty | missing
    · exact absurd empty occupied
    · rw [run] at missing
      cases missing
  | insert t entry interval time evicted found room slots run =>
    exact steady.of_update (SlotCache.noteTime_rest s.cache.rest entry.time).1 rfl nofun nofun
  | noRoom t entry interval time evicted found room run =>
    obtain ⟨slots, inserted⟩ := intact.room room entry
    rw [inserted] at run
    cases run
  | release t interval time found unlocked =>
    exact steady.of_update (intact.releaseAfterStore interval time).2 rfl nofun nofun
  | retrieve maxAllowedFragmentedPages size alignment headersSize unlocked out cache run =>
    obtain ⟨_, _, _, _, _, _, count, _⟩ := intact.retrieve run
    exact steady.of_cache count
  | releaseToOS unlocked => exact steady.of_cache (intact.releaseOlderThan _).2.2
  | setOption o value =>
    cases o with
    | releaseInterval => exact steady.of_cache rfl
    | maxCacheEntrySize => exact steady.of_cache rfl
    | maxCacheEntriesCount =>
      by_cases negative : value < 0
      · apply steady.of_cache
        simp only [Cache.setOption, if_pos negative]
      · refine ⟨fun t pending => ?_, steady.runs⟩
        change (s.cache.rest.setOption config p .maxCacheEntriesCount value).2.maxEntriesCount ≠ 0
        simp only [Cache.setOption, if_neg negative]
        intro zero
        exact careful value ⟨not_lt.mp negative, zero, t, pending⟩ rfl

theorem Initial.steady (initial : Initial config s) : s.Steady where
  enabled := fun t pending => by
    rw [initial.2 t] at pending
    exact pending.elim
  runs := fun t crashed => by
    rw [initial.2 t] at crashed
    cases crashed

theorem undisturbed_steady (reached : (undisturbed p config).Reachable s) :
    s.Sound config ∧ s.Steady := by
  apply reached.invariant
  · intro s initial
    exact ⟨initial.sound, initial.steady⟩
  · rintro s s' ⟨sound, steady⟩ ⟨step, careful⟩
    exact ⟨sound.step step, steady.step sound step careful⟩

end Runs

/-- While no `setOption` sets `MaxEntriesCount` to zero between a `canCache` and the end of the
eviction loop of its `store`, every round of that loop removes an entry that is in the list, there
are at most as many rounds as slots, and the insertion after it finds a slot. -/
theorem eviction_safe {p : Platform} {config : CacheConfig} {s : CacheThreads}
    (reached : (undisturbed p config).Reachable s) :
    (∀ t, s.phase t ≠ .crashed) ∧
      ∀ t entry interval time evicted, s.phase t = .evicting entry interval time evicted →
        evicted + s.cache.slots.lruEntries.size ≤ config.entriesArraySize ∧
          (s.cache.rest.maxEntriesCount ≤ s.cache.slots.lruEntries.size →
            s.cache.slots.lruEntries.size ≠ 0 ∧
              s.cache.slots.lruEntries.last ∈ s.cache.slots.lru ∧
              (s.cache.slots.entries s.cache.slots.lruEntries.last).isValid = true ∧
              ∃ slots, s.cache.slots.remove s.cache.slots.lruEntries.last = some slots ∧
                slots.lruEntries.size + 1 = s.cache.slots.lruEntries.size) ∧
          (s.cache.slots.lruEntries.size < s.cache.rest.maxEntriesCount →
            ∃ slots, s.cache.slots.insert entry = some slots) := by
  obtain ⟨sound, steady⟩ := undisturbed_steady reached
  refine ⟨steady.runs, ?_⟩
  intro t entry interval time evicted found
  have ok := sound.phases t
  rw [found] at ok
  have enabled : s.cache.rest.maxEntriesCount ≠ 0 := by
    apply steady.enabled t
    rw [found]
    trivial
  obtain ⟨live, free, intact⟩ := sound.intact
  exact ⟨ok.2, sound.round enabled, fun room => intact.room room entry⟩

/-- A step that moves a thread is not a `setOption`. -/
theorem undisturbed_step {p : Platform} {config : CacheConfig} {s s' : CacheThreads} (t : Nat)
    (reached : (undisturbed p config).Reachable s) (step : Step p config s s')
    (moved : s'.phase t ≠ s.phase t) : (undisturbed p config).Reachable s' := by
  refine .step reached ⟨step, ?_⟩
  rintro value _ rfl
  exact moved rfl

/-- The second `store` of a cache with one slot is about to evict the entry of the first one. -/
theorem eviction_safe_two_stores :
    ∃ (s : CacheThreads) (entry : CachedBlock),
      (undisturbed Platform.linux64 ⟨1, 0, 1, 8192, 0, 0, 0⟩).Reachable s ∧
      s.phase 0 = .evicting entry 0 9 0 ∧ s.cache.rest.maxEntriesCount = 1 ∧
      s.cache.slots.lru = [1] ∧ s.cache.slots.lruEntries.last = 1 ∧
      (s.cache.slots.entries 1).isValid = true ∧
      ∃ slots, s.cache.slots.remove 1 = some slots := by
  let config : CacheConfig := ⟨1, 0, 1, 8192, 0, 0, 0⟩
  let opts : Options := ⟨false, false⟩
  let start : CacheThreads := ⟨SlotCache.init config 0 ⟨fun _ => 0, fun _ => 0⟩, fun _ => .idle, 0⟩
  have started : (undisturbed Platform.linux64 config).Reachable start :=
    .init ⟨⟨0, _, rfl⟩, fun _ => rfl⟩
  have counted := undisturbed_step 0 started (.count 0 4096 rfl (by decide) (by decide)) nofun
  have checked := undisturbed_step 0 counted (.check 0 4096 rfl (by decide)) nofun
  have ready := undisturbed_step 0 checked (.start 0 4096 rfl) nofun
  have storing := undisturbed_step 0 ready (.begin 0 4096 0 opts 7 4096 4096
    (MemMap.fresh 4096 4096) rfl (Unlocked.of_others 0 (by simp +contextual [move, start]) id)
    (by decide) (by decide) _ _ _ rfl) nofun
  have inserted := undisturbed_step 0 storing (.insert 0 _ 0 7 0 rfl (by decide) _ rfl) nofun
  have released := undisturbed_step 0 inserted (.release 0 0 7 rfl
    (Unlocked.of_others 0 (by simp +contextual [move, setCache, start]) id)) nofun
  have counted' := undisturbed_step 0 released (.count 0 4096 rfl (by decide) (by decide)) nofun
  have checked' := undisturbed_step 0 counted' (.check 0 4096 rfl (by decide)) nofun
  have ready' := undisturbed_step 0 checked' (.start 0 4096 rfl) nofun
  have second := undisturbed_step 0 ready' (.begin 0 4096 0 opts 9 8192 8192
    (MemMap.fresh 8192 4096) rfl
    (Unlocked.of_others 0 (by simp +contextual [move, setCache, start]) id)
    (by decide) (by decide) _ _ _ rfl) nofun
  obtain ⟨_, round, _⟩ := (eviction_safe second).2 0 _ 0 9 0 rfl
  obtain ⟨_, _, valid, slots, run, _⟩ := round (by decide)
  exact ⟨_, _, second, rfl, rfl, rfl, rfl, valid, slots, run⟩

/-- The count is set to zero after `canCache`: the loop goes on with an empty list. -/
theorem eviction_meets_empty_list :
    ∃ (s : CacheThreads) (entry : CachedBlock),
      (system Platform.linux64 ⟨1, 0, 1, 8192, 0, 0, 0⟩).Reachable s ∧
      s.phase 0 = .evicting entry 0 7 0 ∧ s.cache.rest.maxEntriesCount = 0 ∧
      s.cache.slots.lruEntries.size = 0 ∧
      (system Platform.linux64 ⟨1, 0, 1, 8192, 0, 0, 0⟩).Reachable (s.move 0 .crashed) := by
  let config : CacheConfig := ⟨1, 0, 1, 8192, 0, 0, 0⟩
  let opts : Options := ⟨false, false⟩
  let start : CacheThreads := ⟨SlotCache.init config 0 ⟨fun _ => 0, fun _ => 0⟩, fun _ => .idle, 0⟩
  have started : (system Platform.linux64 config).Reachable start :=
    .init ⟨⟨0, _, rfl⟩, fun _ => rfl⟩
  have counted := started.step (.count 0 4096 rfl (by decide) (by decide))
  have checked := counted.step (.check 0 4096 rfl (by decide))
  have ready := checked.step (.start 0 4096 rfl)
  have disabled := ready.step (.setOption .maxCacheEntriesCount 0)
  have storing := disabled.step (.begin 0 4096 0 opts 7 4096 4096 (MemMap.fresh 4096 4096) rfl
    (Unlocked.of_others 0 (by simp +contextual [move, setCache, start]) id)
    (by decide) (by decide) _ _ _ rfl)
  exact ⟨_, _, storing, rfl, rfl, rfl, storing.step (.crash 0 _ 0 7 0 rfl (by decide) (.inl rfl))⟩

end CacheThreads

end Scudo.Secondary
