import Scudo.Secondary.MapLayout

/-!
What the cache keeps true of its entries, and where `retrieve` places a block: an entry whose
time is zero reads as zero, and every entry is a page range inside its mapping.
-/

namespace Scudo.Secondary

/-- A committed range: whole pages of its mapping, with a page of address space behind it. -/
structure InMapping (p : Platform) (commitBase commitSize : Nat) (memMap : MemMap) : Prop where
  pos : 0 < commitBase
  base_le : memMap.base ≤ commitBase
  stop_le : commitBase + commitSize ≤ memMap.base + memMap.capacity
  pages : p.page.bytes ∣ commitBase ∧ p.page.bytes ∣ commitSize
  inside : commitBase + commitSize + p.page.bytes ≤ 2 ^ p.word.bits

/-- Header and user part of a block in a committed range. -/
structure FitsIn (p : Platform) (req : Request) (commitBase commitSize headerPos : Nat) :
    Prop where
  header : commitBase ≤ headerPos
  aligned : req.alignment ∣ headerPos + p.word.getHeadersSize
  user : headerPos + p.word.getHeadersSize + req.size ≤ commitBase + commitSize

/-- Writing to the bytes of a mapping leaves its range. -/
theorem InMapping.of_same {p : Platform} {commitBase commitSize : Nat} {m m' : MemMap}
    (range : InMapping p commitBase commitSize m) (base : m'.base = m.base)
    (capacity : m'.capacity = m.capacity) : InMapping p commitBase commitSize m' :=
  { pos := range.pos
    base_le := base ▸ range.base_le
    stop_le := by rw [base, capacity]; exact range.stop_le
    pages := range.pages
    inside := range.inside }

theorem InMapping.stop_eq {p : Platform} {commitBase commitSize : Nat} {m : MemMap}
    (range : InMapping p commitBase commitSize m) :
    wadd p.word.bits commitBase commitSize = commitBase + commitSize := by
  have inside := range.inside
  have pagePos := p.page.pos
  exact wadd_eq (by omega)

/-- What holds of every entry of the cache. -/
structure CachedBlock.Ok (p : Platform) (entry : CachedBlock) : Prop where
  range : InMapping p entry.commitBase entry.commitSize entry.memMap
  zero : entry.time = 0 → ∀ a, entry.commitBase ≤ a → a < entry.commitBase + entry.commitSize →
    entry.memMap.bytes a = 0

structure Cache.Ok (p : Platform) (cache : Cache) : Prop where
  entries : ∀ entry ∈ cache.lruEntries, entry.Ok p
  quarantine : ∀ entry ∈ cache.quarantine, entry.isValid = true → entry.Ok p

section Entry

variable {p : Platform} {entry : CachedBlock}

theorem CachedBlock.Ok.isValid (ok : entry.Ok p) : entry.isValid = true := by
  have pos := ok.range.pos
  simp only [CachedBlock.isValid, bne_iff_ne]
  omega

/-- Arguments of `retrieve` whose sum does not wrap and whose headers are smaller than the page that
lies behind every entry. -/
structure Searchable (p : Platform) (size alignment headersSize : Nat) : Prop where
  power : isPowerOfTwo alignment = true
  room : size + alignment + headersSize < 2 ^ p.word.bits
  headers_lt : headersSize < p.page.bytes

/-- Where the user part of a request ends up in this entry, on natural numbers. -/
def CachedBlock.userPos (entry : CachedBlock) (size alignment : Nat) : Nat :=
  roundDownSlow (entry.commitBase + entry.commitSize - size) alignment

/-- The last position of the user part that `retrieve` allows. -/
def CachedBlock.fragmentLimit (p : Platform) (entry : CachedBlock)
    (maxAllowedFragmentedPages : Nat) : Nat :=
  wadd p.word.bits entry.commitBase (wrap p.word.bits (maxAllowedFragmentedPages * p.page.bytes))

/-- The criteria of `retrieve`: the header lies in the commit range and the user part not too far
from its start. -/
structure CachedBlock.Suits (p : Platform) (entry : CachedBlock)
    (maxPages size alignment headersSize : Nat) : Prop where
  room : entry.commitBase + headersSize ≤ entry.userPos size alignment
  limit : entry.userPos size alignment ≤ entry.fragmentLimit p maxPages

section Suits

variable {maxPages size alignment headersSize : Nat}

theorem InMapping.entryStop_eq (range : InMapping p entry.commitBase entry.commitSize entry.memMap) :
    entry.stop p = entry.commitBase + entry.commitSize := range.stop_eq

/-- A request larger than the address of the entry's end lands behind the entry. -/
theorem InMapping.behind_of_large
    (range : InMapping p entry.commitBase entry.commitSize entry.memMap)
    (args : Searchable p size alignment headersSize)
    (large : entry.commitBase + entry.commitSize < size) :
    entry.stop p < entry.headerPos p size alignment headersSize := by
  have room := args.room
  have inside := range.inside
  have pagePos := p.page.pos
  have positive := isPowerOfTwo_pos args.power
  have wrapped := wsub_underflow (w := p.word.bits) (x := entry.commitBase + entry.commitSize)
    (y := size) (by omega) large
  have below := lt_roundDownSlow_add
    (entry.commitBase + entry.commitSize + 2 ^ p.word.bits - size) positive
  have atMost := roundDownSlow_le
    (entry.commitBase + entry.commitSize + 2 ^ p.word.bits - size) alignment
  unfold CachedBlock.headerPos CachedBlock.allocPos
  rw [range.entryStop_eq, wrapped, roundDown_eq args.power (by omega) (by omega),
    wsub_eq (by omega) (by omega)]
  omega

theorem InMapping.allocPos_eq (range : InMapping p entry.commitBase entry.commitSize entry.memMap)
    (args : Searchable p size alignment headersSize)
    (small : size ≤ entry.commitBase + entry.commitSize) :
    entry.allocPos p size alignment = entry.userPos size alignment := by
  have room := args.room
  have inside := range.inside
  have pagePos := p.page.pos
  unfold CachedBlock.allocPos CachedBlock.userPos
  rw [range.entryStop_eq, wsub_eq (by omega) small, roundDown_eq args.power (by omega) (by omega)]

theorem CachedBlock.Suits.size_le (suits : entry.Suits p maxPages size alignment headersSize)
    (range : InMapping p entry.commitBase entry.commitSize entry.memMap) :
    entry.userPos size alignment + size ≤ entry.commitBase + entry.commitSize := by
  have positive := range.pos
  have room := suits.room
  have atMost := roundDownSlow_le (entry.commitBase + entry.commitSize - size) alignment
  unfold CachedBlock.userPos at *
  omega

theorem CachedBlock.Suits.headerPos_eq (suits : entry.Suits p maxPages size alignment headersSize)
    (range : InMapping p entry.commitBase entry.commitSize entry.memMap)
    (args : Searchable p size alignment headersSize) :
    entry.headerPos p size alignment headersSize + headersSize =
      entry.userPos size alignment := by
  have room := suits.room
  have sized := suits.size_le range
  have inside := range.inside
  have pagePos := p.page.pos
  unfold CachedBlock.headerPos
  rw [range.allocPos_eq args (by omega), wsub_eq (by omega) (by omega)]
  omega

/-- The tests of `retrieve` exclude every computation that wraps. -/
theorem InMapping.unsuitable_iff
    (range : InMapping p entry.commitBase entry.commitSize entry.memMap)
    (args : Searchable p size alignment headersSize) :
    entry.unsuitable p maxPages size alignment headersSize = false ↔
      entry.Suits p maxPages size alignment headersSize := by
  have inside := range.inside
  have positive := range.pos
  have headersLt := args.headers_lt
  have tests : entry.unsuitable p maxPages size alignment headersSize = false ↔
      entry.headerPos p size alignment headersSize ≤ entry.stop p ∧
        entry.commitBase ≤ entry.headerPos p size alignment headersSize ∧
        entry.allocPos p size alignment ≤ entry.fragmentLimit p maxPages := by
    simp [CachedBlock.unsuitable, CachedBlock.fragmentLimit]
  rw [tests]
  constructor
  · rintro ⟨notBehind, notBefore, limit⟩
    have small : size ≤ entry.commitBase + entry.commitSize := by
      by_contra large
      have behind := range.behind_of_large args (by omega)
      omega
    have atMost := roundDownSlow_le (entry.commitBase + entry.commitSize - size) alignment
    rw [range.allocPos_eq args small] at limit
    unfold CachedBlock.headerPos at notBehind notBefore
    rw [range.allocPos_eq args small] at notBehind notBefore
    refine ⟨?_, limit⟩
    unfold CachedBlock.userPos at *
    by_cases underflow :
        roundDownSlow (entry.commitBase + entry.commitSize - size) alignment < headersSize
    · -- the header position wraps
      rw [wsub_underflow (by omega) underflow, range.entryStop_eq] at notBehind
      omega
    · rw [wsub_eq (by omega) (by omega)] at notBefore
      omega
  · intro suits
    have sized := suits.size_le range
    have header := suits.headerPos_eq range args
    have room := suits.room
    rw [range.entryStop_eq, range.allocPos_eq args (by omega)]
    exact ⟨by omega, by omega, suits.limit⟩

end Suits

theorem Request.Adjusted.searchable {req : Request} (adjusted : req.Adjusted p) :
    Searchable p req.size req.alignment p.word.getHeadersSize := by
  have room := adjusted.room
  have headersLe := p.word.getHeadersSize_le
  have pageAtLeast := p.page.atLeast
  exact ⟨adjusted.power, by omega, by omega⟩

/-- An entry that passes the tests has room for the block. -/
theorem CachedBlock.Ok.fitsIn {req : Request} {maxPages : Nat} (ok : entry.Ok p)
    (adjusted : req.Adjusted p)
    (suitable : entry.unsuitable p maxPages req.size req.alignment p.word.getHeadersSize = false) :
    FitsIn p req entry.commitBase entry.commitSize
        (entry.headerPos p req.size req.alignment p.word.getHeadersSize) ∧
      entry.headerPos p req.size req.alignment p.word.getHeadersSize + p.word.getHeadersSize =
        roundDownSlow (entry.commitBase + entry.commitSize - req.size) req.alignment := by
  have suits := (ok.range.unsuitable_iff adjusted.searchable).mp suitable
  have sized := suits.size_le ok.range
  have room := suits.room
  have header := suits.headerPos_eq ok.range adjusted.searchable
  have multiple := dvd_roundDownSlow (entry.commitBase + entry.commitSize - req.size)
    req.alignment
  refine ⟨⟨by omega, ?_, by omega⟩, header⟩
  rw [header]
  exact multiple

theorem CachedBlock.releaseFragment_fields (p : Platform) (entry : CachedBlock) (headerPos : Nat) :
    (entry.releaseFragment p headerPos).commitBase = entry.commitBase ∧
      (entry.releaseFragment p headerPos).commitSize = entry.commitSize ∧
      (entry.releaseFragment p headerPos).time = entry.time := by
  unfold CachedBlock.releaseFragment
  dsimp only
  split_ifs <;> exact ⟨rfl, rfl, rfl⟩

theorem CachedBlock.Ok.releaseFragment (ok : entry.Ok p) (headerPos : Nat) :
    (entry.releaseFragment p headerPos).Ok p := by
  unfold CachedBlock.releaseFragment
  dsimp only
  split_ifs with releases
  · exact ⟨ok.range.of_same rfl rfl, fun zero => absurd zero releases.1⟩
  · exact ok

theorem CachedBlock.releaseIfOlderThan_ok {time oldestTime : Nat}
    (ok : entry.isValid = true → entry.Ok p) :
    (entry.releaseIfOlderThan time oldestTime).1.isValid = true →
      (entry.releaseIfOlderThan time oldestTime).1.Ok p := by
  unfold CachedBlock.releaseIfOlderThan
  split_ifs with skipped young first
  · exact ok
  · exact ok
  · exact ok
  · intro valid
    have valid : entry.isValid = true := valid
    refine ⟨(ok valid).range.of_same rfl rfl, ?_⟩
    intro _ a above below
    exact memset_inside _ _ _ _ _ above below

theorem CachedBlock.releaseIfOlderThan_isValid {time oldestTime : Nat} :
    (entry.releaseIfOlderThan time oldestTime).1.isValid = entry.isValid := by
  unfold CachedBlock.releaseIfOlderThan
  split_ifs <;> rfl

end Entry

namespace Cache

variable {p : Platform} {cache : Cache}

/-- A property of single entries that a release keeps holds of all of them. -/
theorem releaseAll_forall (keep : CachedBlock → Prop) {time : Nat}
    (kept : ∀ entry oldestTime, keep entry → keep (entry.releaseIfOlderThan time oldestTime).1)
    (entries : List CachedBlock) (oldestTime : Nat) (all : ∀ entry ∈ entries, keep entry) :
    ∀ entry ∈ (releaseAll time entries oldestTime).1, keep entry := by
  induction entries generalizing oldestTime with
  | nil =>
    intro entry member
    exact absurd member List.not_mem_nil
  | cons first rest ih =>
    intro entry member
    rcases List.mem_cons.mp member with rfl | later
    · exact kept first oldestTime (all first List.mem_cons_self)
    · exact ih _ (fun other inRest => all other (List.mem_cons_of_mem _ inRest)) entry later

/-- One property for the entries of the list and one for those of the quarantine. -/
structure Each (listed quarantined : CachedBlock → Prop) (cache : Cache) : Prop where
  entries : ∀ entry ∈ cache.lruEntries, listed entry
  quarantine : ∀ entry ∈ cache.quarantine, quarantined entry

/-- What is left of a cache after entries have been taken out of its list. -/
structure Shrinks (cache' cache : Cache) : Prop where
  entries : cache'.lruEntries.Sublist cache.lruEntries
  quarantine : cache'.quarantine = cache.quarantine

theorem Shrinks.refl (cache : Cache) : cache.Shrinks cache := ⟨List.Sublist.refl _, rfl⟩

/-- Two properties that no operation of the cache breaks. -/
structure Stable (listed quarantined : CachedBlock → Prop) : Prop where
  release : ∀ entry time oldestTime, listed entry →
    listed (entry.releaseIfOlderThan time oldestTime).1
  releaseQuarantined : ∀ entry time oldestTime, quarantined entry →
    quarantined (entry.releaseIfOlderThan time oldestTime).1
  enter : ∀ entry, listed entry → quarantined entry
  leave : ∀ entry, entry.isValid = true → quarantined entry → listed entry

section Each

variable {listed quarantined : CachedBlock → Prop} {cache' : Cache}

theorem Each.of_shrinks (each : cache.Each listed quarantined) (shrinks : cache'.Shrinks cache) :
    cache'.Each listed quarantined :=
  ⟨fun entry member => each.entries entry (shrinks.entries.subset member),
    shrinks.quarantine ▸ each.quarantine⟩

theorem Each.noteTime (each : cache.Each listed quarantined) (time : Nat) :
    (cache.noteTime time).Each listed quarantined := by
  unfold Cache.noteTime
  split_ifs
  · exact ⟨each.entries, each.quarantine⟩
  · exact each

theorem Each.releaseOlderThan (stable : Stable listed quarantined)
    (each : cache.Each listed quarantined) (time : Nat) :
    (cache.releaseOlderThan time).Each listed quarantined := by
  unfold Cache.releaseOlderThan
  split_ifs
  · exact each
  · constructor
    · apply releaseAll_forall listed _ _ _ each.entries
      intro entry oldestTime keeps
      exact stable.release entry time oldestTime keeps
    · apply releaseAll_forall quarantined _ _ _ each.quarantine
      intro entry oldestTime keeps
      exact stable.releaseQuarantined entry time oldestTime keeps

theorem Each.releaseAfterStore (stable : Stable listed quarantined)
    (each : cache.Each listed quarantined) (interval : Int) (time : Nat) :
    (cache.releaseAfterStore interval time).Each listed quarantined := by
  unfold Cache.releaseAfterStore
  split_ifs
  · exact each.releaseOlderThan stable _
  · exact each

end Each

section Scan

variable (p) (maxPages size alignment headersSize : Nat)

/-- `Diff` of an entry. -/
def slackOf (entry : CachedBlock) : Nat :=
  entry.fragmentedBytes p (entry.headerPos p size alignment headersSize)

/-- The slack is small enough to end the scan. -/
def CloseFit (entry : CachedBlock) : Prop :=
  slackOf p size alignment headersSize entry ≤
    wsub p.word.bits (entry.stop p) (entry.headerPos p size alignment headersSize) / 10

/-- The candidate that the scan of `entries` from number `index` on chooses: an entry that passes the
tests and beats the best so far, and no other entry that passes is better unless the scan ended
early. -/
structure Chosen (entries : List CachedBlock) (index : Nat) (best : Option Candidate)
    (candidate : Candidate) (place : Nat) (entry : CachedBlock) : Prop where
  get : entries[place]? = some entry
  suitable : entry.unsuitable p maxPages size alignment headersSize = false
  shape : candidate = ⟨index + place, entry.headerPos p size alignment headersSize,
    slackOf p size alignment headersSize entry⟩
  better : slackOf p size alignment headersSize entry < minDiff p best
  least : (∀ other ∈ entries, other.unsuitable p maxPages size alignment headersSize = false →
      slackOf p size alignment headersSize entry ≤ slackOf p size alignment headersSize other) ∨
    CloseFit p size alignment headersSize entry

variable {p maxPages size alignment headersSize}

/-- The scan keeps the candidate from before when no entry that passes the tests beats it, and chooses
the best such entry otherwise. -/
theorem scan_spec (entries : List CachedBlock) (index : Nat) (best : Option Candidate) :
    (scan p maxPages size alignment headersSize entries index best = best ∧
        ∀ entry ∈ entries, entry.unsuitable p maxPages size alignment headersSize = false →
          minDiff p best ≤ slackOf p size alignment headersSize entry) ∨
      ∃ candidate place entry,
        scan p maxPages size alignment headersSize entries index best = some candidate ∧
          Chosen p maxPages size alignment headersSize entries index best candidate place
            entry := by
  induction entries generalizing index best with
  | nil => exact Or.inl ⟨rfl, nofun⟩
  | cons first rest ih =>
    -- a choice in the rest, when the first entry is no better
    have later : ∀ {best' : Option Candidate} {candidate : Candidate} {place : Nat}
        {entry : CachedBlock}, minDiff p best' ≤ minDiff p best →
        (first.unsuitable p maxPages size alignment headersSize = false →
          minDiff p best' ≤ slackOf p size alignment headersSize first) →
        Chosen p maxPages size alignment headersSize rest (index + 1) best' candidate place entry →
        Chosen p maxPages size alignment headersSize (first :: rest) index best candidate
          (place + 1) entry := by
      intro best' candidate place entry below firstAbove chosen
      have better := chosen.better
      refine ⟨chosen.get, chosen.suitable, ?_, by omega, ?_⟩
      · rw [chosen.shape, Nat.add_assoc, Nat.add_comm 1 place]
      · rcases chosen.least with least | close
        · left
          intro other member suitable
          rcases List.mem_cons.mp member with rfl | inRest
          · have := firstAbove suitable
            omega
          · exact least other inRest suitable
        · exact Or.inr close
    by_cases skip : first.unsuitable p maxPages size alignment headersSize = true
    · rw [scan, if_pos skip]
      rcases ih (index + 1) best with ⟨same, none⟩ | ⟨candidate, place, entry, found, chosen⟩
      · refine Or.inl ⟨same, ?_⟩
        intro entry member suitable
        rcases List.mem_cons.mp member with rfl | inRest
        · rw [skip] at suitable
          cases suitable
        · exact none entry inRest suitable
      · refine Or.inr ⟨candidate, place + 1, entry, found, later le_rfl ?_ chosen⟩
        intro suitable
        rw [skip] at suitable
        cases suitable
    · have suitable : first.unsuitable p maxPages size alignment headersSize = false := by
        simpa using skip
      rw [scan, if_neg skip]
      dsimp only
      split_ifs with worse optimal
      · rcases ih (index + 1) best with ⟨same, none⟩ | ⟨candidate, place, entry, found, chosen⟩
        · exact Or.inl ⟨same, List.forall_mem_cons.mpr ⟨fun _ => worse, none⟩⟩
        · exact Or.inr ⟨candidate, place + 1, entry, found,
            later le_rfl (fun _ => worse) chosen⟩
      · exact Or.inr ⟨_, 0, first, rfl, rfl, suitable, rfl, Nat.lt_of_not_le worse,
          Or.inr optimal⟩
      · have beats : slackOf p size alignment headersSize first < minDiff p best :=
          Nat.lt_of_not_le worse
        rcases ih (index + 1) (some ⟨index, first.headerPos p size alignment headersSize,
            slackOf p size alignment headersSize first⟩) with
          ⟨same, none⟩ | ⟨candidate, place, entry, found, chosen⟩
        · exact Or.inr ⟨_, 0, first, same, rfl, suitable, rfl, beats,
            Or.inl (List.forall_mem_cons.mpr ⟨fun _ => le_rfl, none⟩)⟩
        · refine Or.inr ⟨candidate, place + 1, entry, found, later ?_ ?_ chosen⟩
          · exact beats.le
          · exact fun _ => le_rfl

end Scan

/-- A successful `retrieve` takes an entry of the list that passes the tests. -/
structure Retrieved (p : Platform) (cache : Cache) (maxPages size alignment headersSize : Nat)
    (taken : CachedBlock) (headerPos : Nat) (cache' : Cache) : Prop where
  from_entry : ∃ entry ∈ cache.lruEntries, taken = entry.releaseFragment p headerPos ∧
    headerPos = entry.headerPos p size alignment headersSize ∧
    entry.unsuitable p maxPages size alignment headersSize = false
  rest : cache'.lruEntries.Sublist cache.lruEntries
  quarantine : cache'.quarantine = cache.quarantine

theorem retrieve_some {maxPages size alignment headersSize headerPos : Nat} {taken : CachedBlock}
    {cache' : Cache}
    (run : cache.retrieve p maxPages size alignment headersSize = (some (taken, headerPos), cache')) :
    Retrieved p cache maxPages size alignment headersSize taken headerPos cache' := by
  unfold retrieve at run
  dsimp only at run
  split at run
  · cases run
  · next candidate found =>
    rcases scan_spec _ _ _ with ⟨none, _⟩ | ⟨candidate', place, entry, same, chosen⟩
    · rw [none] at found
      cases found
    · rw [found] at same
      obtain rfl := Option.some.inj same
      rw [chosen.shape, Nat.zero_add] at run
      simp only [chosen.get, Prod.mk.injEq, Option.some.injEq] at run
      obtain ⟨⟨rfl, rfl⟩, rfl⟩ := run
      exact ⟨⟨entry, List.mem_of_getElem? chosen.get, rfl, rfl, chosen.suitable⟩,
        List.eraseIdx_sublist _ _, rfl⟩

theorem retrieve_none {maxPages size alignment headersSize : Nat} {cache' : Cache}
    (run : cache.retrieve p maxPages size alignment headersSize = (none, cache')) :
    cache'.lruEntries = cache.lruEntries ∧ cache'.quarantine = cache.quarantine := by
  unfold retrieve at run
  dsimp only at run
  split at run
  · cases run
    exact ⟨rfl, rfl⟩
  · split at run
    · cases run
      exact ⟨rfl, rfl⟩
    · cases run

theorem evict_subset {maxEntriesCount : Nat} (entries : List CachedBlock) :
    ∀ kept evicted, evict maxEntriesCount entries = some (kept, evicted) → kept ⊆ entries := by
  induction entries with
  | nil =>
    intro kept evicted run
    rw [evict] at run
    split_ifs at run
    cases run
    exact List.Subset.refl _
  | cons oldest rest ih =>
    intro kept evicted run
    rw [evict] at run
    split_ifs at run
    · split at run
      · cases run
      · next run' =>
        cases run
        exact List.subset_cons_of_subset _ (ih _ _ run')
    · cases run
      exact List.Subset.refl _

/-- A range that is stored while the clock is past zero makes a sound entry. -/
theorem storedEntry_ok {opts : Options} {interval : Int} {now commitBase commitSize : Nat}
    {memMap : MemMap} (blockBegin : Nat) (clock : 0 < now)
    (range : InMapping p commitBase commitSize memMap) :
    (storedEntry opts interval now commitBase commitSize blockBegin memMap).Ok p := by
  unfold storedEntry
  split_ifs
  · refine ⟨range.of_same rfl rfl, ?_⟩
    intro _ a above below
    exact memset_inside _ _ _ _ _ above below
  · exact ⟨range, fun zero => absurd zero clock.ne'⟩

section EachStore

variable {listed quarantined : CachedBlock → Prop} {config : CacheConfig} {cache' : Cache}

theorem Each.quarantineEntry (stable : Stable listed quarantined)
    (each : cache.Each listed quarantined) {entry : CachedBlock} {out : Option CachedBlock}
    (new : listed entry) (run : cache.quarantineEntry config entry = (cache', out)) :
    cache'.Each listed quarantined ∧ ∀ previous, out = some previous → listed previous := by
  have swapped : ∀ pos, ∀ other ∈ cache.quarantine.set pos entry, quarantined other := by
    intro pos other member
    rcases List.mem_or_eq_of_mem_set member with old | rfl
    · exact each.quarantine other old
    · exact stable.enter _ new
  unfold Cache.quarantineEntry at run
  dsimp only at run
  split_ifs at run with valid
  · cases run
    constructor
    · apply Each.noteTime
      exact ⟨each.entries, swapped _⟩
    rintro previous ⟨⟩
    rw [List.getD_eq_getElem?_getD] at valid ⊢
    cases get : cache.quarantine[wadd 32 cache.quarantinePos 1 % max config.quarantineSize 1]? with
    | none =>
      rw [get] at valid
      exact absurd valid (by decide)
    | some previous =>
      rw [get] at valid
      exact stable.leave previous valid (each.quarantine previous (List.mem_of_getElem? get))
  · cases run
    refine ⟨⟨each.entries, swapped _⟩, ?_⟩
    rintro previous ⟨⟩

/-- The eviction and the push that end `store` keep the entries, if the pushed one is fine. -/
theorem Each.push (each : cache.Each listed quarantined) {entry : CachedBlock} (new : listed entry)
    {kept : List CachedBlock} {evicted : List MemMap}
    (evicts : evict cache.maxEntriesCount cache.lruEntries.reverse = some (kept, evicted)) :
    ({ cache with lruEntries := entry :: kept.reverse } : Cache).Each listed quarantined := by
  refine ⟨?_, each.quarantine⟩
  intro other member
  rcases List.mem_cons.mp member with rfl | old
  · exact new
  · have inReverse := evict_subset _ _ _ evicts (List.mem_reverse.mp old)
    exact each.entries other (List.mem_reverse.mp inReverse)

/-- `store` keeps what holds of all entries, if it holds of the new one. -/
theorem Each.store (stable : Stable listed quarantined) (each : cache.Each listed quarantined)
    {opts : Options} {now commitBase commitSize blockBegin : Nat} {memMap : MemMap}
    {unmapped : List MemMap}
    (new : ∀ interval, listed (storedEntry opts interval now commitBase commitSize blockBegin
      memMap))
    (run : cache.store config opts now commitBase commitSize blockBegin memMap =
      some (cache', unmapped)) : cache'.Each listed quarantined := by
  unfold Cache.store at run
  dsimp only at run
  split_ifs at run with disabled quarantined
  · cases run
    exact each.releaseAfterStore stable _ _
  · split at run
    · next kept swap =>
      cases run
      exact (each.quarantineEntry stable (new _) swap).1
    · next previous swap =>
      obtain ⟨swapped, leaves⟩ := each.quarantineEntry stable (new _) swap
      split at run
      · cases run
      · next kept evicted evicts =>
        cases run
        apply Each.releaseAfterStore stable
        apply Each.noteTime
        exact swapped.push (leaves _ rfl) evicts
  · dsimp only at run
    split at run
    · cases run
    · next kept evicted evicts =>
      cases run
      apply Each.releaseAfterStore stable
      apply Each.noteTime
      exact each.push (new _) evicts

theorem Each.setOption (each : cache.Each listed quarantined) (p : Platform) (o : CacheOption)
    (value : Int) : (cache.setOption config p o value).2.Each listed quarantined := by
  unfold Cache.setOption
  cases o with
  | releaseInterval => exact ⟨each.entries, each.quarantine⟩
  | maxCacheEntriesCount =>
    dsimp only
    split_ifs
    · exact each
    · exact ⟨each.entries, each.quarantine⟩
  | maxCacheEntrySize => exact ⟨each.entries, each.quarantine⟩

end EachStore

/-- The invariant of the cache as one property of each entry. -/
theorem ok_iff_each :
    cache.Ok p ↔ cache.Each (fun entry => entry.Ok p) fun entry => entry.isValid = true → entry.Ok p :=
  ⟨fun ok => ⟨ok.entries, ok.quarantine⟩, fun each => ⟨each.entries, each.quarantine⟩⟩

theorem ok_stable :
    Stable (fun entry => entry.Ok p) fun entry => entry.isValid = true → entry.Ok p where
  release := by
    intro entry time oldestTime ok
    apply CachedBlock.releaseIfOlderThan_ok (fun _ => ok)
    rw [CachedBlock.releaseIfOlderThan_isValid]
    exact ok.isValid
  releaseQuarantined := by
    intro entry time oldestTime ok
    exact CachedBlock.releaseIfOlderThan_ok ok
  enter := fun _ ok _ => ok
  leave := fun _ valid ok => ok valid

theorem Ok.releaseOlderThan (ok : cache.Ok p) (time : Nat) : (cache.releaseOlderThan time).Ok p :=
  ok_iff_each.mpr ((ok_iff_each.mp ok).releaseOlderThan ok_stable time)

/-- `store` keeps every entry sound. -/
theorem Ok.store {config : CacheConfig} {opts : Options} {now commitBase commitSize : Nat}
    {memMap : MemMap} {cache' : Cache} {unmapped : List MemMap} (ok : cache.Ok p)
    (blockBegin : Nat) (clock : 0 < now) (range : InMapping p commitBase commitSize memMap)
    (run : cache.store config opts now commitBase commitSize blockBegin memMap =
      some (cache', unmapped)) : cache'.Ok p := by
  have new : ∀ interval, (storedEntry opts interval now commitBase commitSize blockBegin
      memMap).Ok p := fun interval => storedEntry_ok blockBegin clock range
  exact ok_iff_each.mpr ((ok_iff_each.mp ok).store ok_stable new run)

theorem Ok.setOption (ok : cache.Ok p) (config : CacheConfig) (o : CacheOption) (value : Int) :
    (cache.setOption config p o value).2.Ok p :=
  ok_iff_each.mpr ((ok_iff_each.mp ok).setOption p o value)

theorem Ok.disableMemoryTagging (ok : cache.Ok p) : cache.disableMemoryTagging.1.Ok p := by
  refine ⟨ok.entries, ?_⟩
  intro entry member valid
  obtain ⟨old, _, rfl⟩ := List.mem_map.mp member
  split_ifs at valid with wasValid
  · exact absurd valid (by simp [CachedBlock.isValid, CachedBlock.invalidate])
  · exact absurd valid wasValid

theorem init_ok (config : CacheConfig) (releaseToOsInterval : Int) :
    (Cache.init config releaseToOsInterval).Ok p := by
  constructor
  · intro entry member
    exact absurd member List.not_mem_nil
  · intro entry member valid
    rw [List.eq_of_mem_replicate member] at valid
    exact absurd valid (by decide)

end Cache

end Scudo.Secondary
