import Scudo.Secondary.CacheSpec

/-!
`retrieve` of the cache as a search: what it returns, and what is true of the entries it passes over.
-/

namespace Scudo.Secondary

section Search

variable {p : Platform} {entry : CachedBlock} {maxPages size alignment headersSize : Nat}

/-- The unused bytes in front of the page of the header, on natural numbers. -/
def CachedBlock.slack (p : Platform) (entry : CachedBlock)
    (size alignment headersSize : Nat) : Nat :=
  roundDownSlow (entry.userPos size alignment - headersSize) p.page.bytes - entry.commitBase

/-- The header never lies before the page of the commit base. -/
theorem CachedBlock.Suits.base_le (suits : entry.Suits p maxPages size alignment headersSize)
    (range : InMapping p entry.commitBase entry.commitSize entry.memMap) :
    entry.commitBase ≤
      roundDownSlow (entry.userPos size alignment - headersSize) p.page.bytes := by
  have room := suits.room
  exact le_roundDownSlow range.pages.1 (by omega)

theorem CachedBlock.Suits.slack_eq (suits : entry.Suits p maxPages size alignment headersSize)
    (range : InMapping p entry.commitBase entry.commitSize entry.memMap)
    (args : Searchable p size alignment headersSize) :
    Cache.slackOf p size alignment headersSize entry = entry.slack p size alignment headersSize := by
  have header := suits.headerPos_eq range args
  have sized := suits.size_le range
  have inside := range.inside
  have positive := range.pos
  have pagePos := p.page.pos
  have same : entry.headerPos p size alignment headersSize =
      entry.userPos size alignment - headersSize := by omega
  have base := suits.base_le range
  have atMost := roundDownSlow_le (entry.userPos size alignment - headersSize) p.page.bytes
  unfold Cache.slackOf CachedBlock.fragmentedBytes CachedBlock.slack
  rw [same, roundDown_eq p.page.power (by omega) (by omega), wsub_eq (by omega) base]

theorem CachedBlock.Suits.slack_lt (suits : entry.Suits p maxPages size alignment headersSize)
    (range : InMapping p entry.commitBase entry.commitSize entry.memMap) :
    entry.slack p size alignment headersSize < 2 ^ p.word.bits - 1 := by
  have sized := suits.size_le range
  have inside := range.inside
  have least := p.page.atLeast
  have atMost := roundDownSlow_le (entry.userPos size alignment - headersSize) p.page.bytes
  unfold CachedBlock.slack
  omega

/-- The limit never allows more than the pages that were asked for. -/
theorem CachedBlock.Suits.fragment_le (suits : entry.Suits p maxPages size alignment headersSize)
    (range : InMapping p entry.commitBase entry.commitSize entry.memMap) :
    entry.userPos size alignment - entry.commitBase ≤ maxPages * p.page.bytes := by
  have room := suits.room
  have limit := suits.limit
  have inside := range.inside
  have product : wrap p.word.bits (maxPages * p.page.bytes) ≤ maxPages * p.page.bytes :=
    Nat.mod_le _ _
  have below : wrap p.word.bits (maxPages * p.page.bytes) < 2 ^ p.word.bits :=
    Nat.mod_lt _ (by positivity)
  unfold CachedBlock.fragmentLimit at limit
  by_cases wraps :
      entry.commitBase + wrap p.word.bits (maxPages * p.page.bytes) < 2 ^ p.word.bits
  · rw [wadd_eq wraps] at limit
    omega
  · -- the limit wraps below the entry, which nothing passes
    have wrapped : wadd p.word.bits entry.commitBase
        (wrap p.word.bits (maxPages * p.page.bytes)) < entry.commitBase := by
      unfold wadd
      rw [wrap, Nat.mod_eq_sub_mod (by omega), Nat.mod_eq_of_lt (by omega)]
      omega
    omega

/-- What a chosen entry releases lies below the page of its header. -/
theorem releaseFragment_range (suits : entry.Suits p maxPages size alignment headersSize)
    (range : InMapping p entry.commitBase entry.commitSize entry.memMap)
    (args : Searchable p size alignment headersSize) :
    ∃ released, entry.commitBase + released ≤
        roundDownSlow (entry.userPos size alignment - headersSize) p.page.bytes ∧
      entry.releaseFragment p (entry.headerPos p size alignment headersSize) =
        if released = 0 then entry
        else { entry with
          memMap := entry.memMap.releaseAndZeroPagesToOS entry.commitBase released } := by
  have slack := suits.slack_eq range args
  have base := suits.base_le range
  have inside := range.inside
  have sized := suits.size_le range
  have atMost := roundDownSlow_le (entry.userPos size alignment - headersSize) p.page.bytes
  have pagePos := p.page.pos
  have pageAtMost := p.page.atMost
  have wide := p.word.bits_le
  unfold Cache.slackOf at slack
  have unreleased : wrap p.word.bits (maxUnreleasedCachePages * p.page.bytes) =
      4 * p.page.bytes := wrap_eq (by unfold maxUnreleasedCachePages; omega)
  have most : wrap p.word.bits (CachedBlock.maxReleasedCachePages * p.page.bytes) =
      4 * p.page.bytes := wrap_eq (by unfold CachedBlock.maxReleasedCachePages; omega)
  unfold CachedBlock.releaseFragment
  simp only [slack, unreleased, most]
  by_cases releases : entry.time ≠ 0 ∧ 4 * p.page.bytes < entry.slack p size alignment headersSize
  · rw [if_pos releases]
    -- the slack is a whole number of pages, so that rounding up does not reach past it
    have pages : p.page.bytes ∣ min (4 * p.page.bytes)
        (entry.slack p size alignment headersSize - 4 * p.page.bytes) := by
      have whole : p.page.bytes ∣ entry.slack p size alignment headersSize :=
        Nat.dvd_sub (dvd_roundDownSlow _ _) range.pages.1
      rcases min_choice (4 * p.page.bytes)
        (entry.slack p size alignment headersSize - 4 * p.page.bytes) with four | rest
      · rw [four]
        exact Nat.dvd_mul_left _ _
      · rw [rest]
        exact Nat.dvd_sub whole (Nat.dvd_mul_left _ _)
    have bound : min (4 * p.page.bytes)
        (entry.slack p size alignment headersSize - 4 * p.page.bytes) ≤
        entry.slack p size alignment headersSize - 4 * p.page.bytes := min_le_right _ _
    have positive : 0 < min (4 * p.page.bytes)
        (entry.slack p size alignment headersSize - 4 * p.page.bytes) :=
      lt_min (by omega) (by omega)
    have slackLe : entry.commitBase + entry.slack p size alignment headersSize =
        roundDownSlow (entry.userPos size alignment - headersSize) p.page.bytes := by
      unfold CachedBlock.slack
      omega
    refine ⟨min (4 * p.page.bytes)
      (entry.slack p size alignment headersSize - 4 * p.page.bytes), by omega, ?_⟩
    rw [if_neg (by omega), roundUp_eq p.page.power (by omega) (by omega),
      roundUpSlow_of_dvd pagePos pages]
  · rw [if_neg releases]
    exact ⟨0, base, (if_pos rfl).symm⟩

end Search

/-- The arguments of a search: a size below the limit of `malloc`, an alignment and headers smaller
than a page. -/
theorem searchable_of_small {p : Platform} {size alignment headersSize : Nat}
    (size_lt : size < p.word.maxAllowedMallocSize) (power : isPowerOfTwo alignment = true)
    (alignment_lt : alignment < p.page.bytes) (headers_lt : headersSize < p.page.bytes) :
    Searchable p size alignment headersSize := by
  have wide := p.word.maxAllowedMallocSize_lt
  have pageAtMost := p.page.atMost
  exact ⟨power, by omega, headers_lt⟩

/-- What `retrieve` returns when it finds an entry. -/
structure FoundBest (p : Platform) (cache cache' : Cache) (maxPages size alignment headersSize : Nat)
    (taken : CachedBlock) (headerPos : Nat) (entry : CachedBlock) : Prop where
  member : entry ∈ cache.lruEntries
  rest : ∃ place, cache.lruEntries[place]? = some entry ∧
    cache'.lruEntries = cache.lruEntries.eraseIdx place
  header : headerPos + headersSize = entry.userPos size alignment
  aligned : alignment ∣ headerPos + headersSize
  inside : entry.commitBase ≤ headerPos ∧
    headerPos + headersSize + size ≤ entry.commitBase + entry.commitSize
  fragment : headerPos + headersSize - entry.commitBase ≤ maxPages * p.page.bytes
  released : ∃ released, entry.commitBase + released ≤ roundDownSlow headerPos p.page.bytes ∧
    taken = if released = 0 then entry
      else { entry with
        memMap := entry.memMap.releaseAndZeroPagesToOS entry.commitBase released }
  least : (∀ other ∈ cache.lruEntries, other.Suits p maxPages size alignment headersSize →
      entry.slack p size alignment headersSize ≤ other.slack p size alignment headersSize) ∨
    entry.slack p size alignment headersSize ≤
      (entry.commitBase + entry.commitSize - headerPos) / 10

/-- `retrieve` is a best-fit search. An entry that it returns holds the header and the aligned user part
within the allowed fragmentation, releases pages below its header only, and has the least slack of all
entries that meet the criteria, or ended the scan with a slack within a tenth of its used part. If
it returns none, no entry meets the criteria, and all stay. The limit among the criteria is computed
in one word, and exact when that does not wrap. -/
theorem cache_retrieve_best_fit (p : Platform) (cache : Cache)
    (maxPages size alignment headersSize : Nat)
    (entries : ∀ entry ∈ cache.lruEntries,
      InMapping p entry.commitBase entry.commitSize entry.memMap)
    (size_lt : size < p.word.maxAllowedMallocSize) (power : isPowerOfTwo alignment = true)
    (alignment_lt : alignment < p.page.bytes) (headers_lt : headersSize < p.page.bytes) :
    (∀ taken headerPos cache',
      cache.retrieve p maxPages size alignment headersSize = (some (taken, headerPos), cache') →
      ∃ entry, FoundBest p cache cache' maxPages size alignment headersSize taken headerPos
        entry) ∧
    (∀ cache', cache.retrieve p maxPages size alignment headersSize = (none, cache') →
      (∀ entry ∈ cache.lruEntries, ¬entry.Suits p maxPages size alignment headersSize) ∧
        cache'.lruEntries = cache.lruEntries) ∧
    ∀ entry ∈ cache.lruEntries,
      entry.commitBase + maxPages * p.page.bytes < 2 ^ p.word.bits →
      entry.fragmentLimit p maxPages = entry.commitBase + maxPages * p.page.bytes := by
  have args := searchable_of_small size_lt power alignment_lt headers_lt
  have suits : ∀ entry ∈ cache.lruEntries,
      (entry.unsuitable p maxPages size alignment headersSize = false ↔
        entry.Suits p maxPages size alignment headersSize) :=
    fun entry member => (entries entry member).unsuitable_iff args
  refine ⟨?_, ?_, ?_⟩
  · intro taken headerPos cache' run
    unfold Cache.retrieve at run
    dsimp only at run
    rcases Cache.scan_spec cache.lruEntries 0 none with
      ⟨none, _⟩ | ⟨candidate, place, entry, found, chosen⟩
    · rw [none] at run
      cases run
    · have member : entry ∈ cache.lruEntries := List.mem_of_getElem? chosen.get
      have range := entries entry member
      have suit := (suits entry member).mp chosen.suitable
      have header := suit.headerPos_eq range args
      have sized := suit.size_le range
      have room := suit.room
      have fragment := suit.fragment_le range
      have slack := suit.slack_eq range args
      have same : entry.headerPos p size alignment headersSize =
          entry.userPos size alignment - headersSize := by omega
      obtain ⟨released, below, shape⟩ := releaseFragment_range suit range args
      rw [found] at run
      simp only [chosen.shape, Nat.zero_add, chosen.get, Prod.mk.injEq, Option.some.injEq] at run
      obtain ⟨⟨rfl, rfl⟩, rfl⟩ := run
      refine ⟨entry, member, ⟨place, chosen.get, rfl⟩, header, ?_, ⟨by omega, by omega⟩, by omega,
        ⟨released, same ▸ below, shape⟩, ?_⟩
      · rw [header]
        exact dvd_roundDownSlow _ _
      · rcases chosen.least with least | close
        · left
          intro other inList suitOther
          have above := least other inList ((suits other inList).mpr suitOther)
          rwa [slack, suitOther.slack_eq (entries other inList) args] at above
        · right
          unfold Cache.CloseFit at close
          have inside := range.inside
          have pagePos := p.page.pos
          rwa [slack, range.entryStop_eq, wsub_eq (by omega) (by omega)] at close
  · intro cache' run
    refine ⟨?_, (Cache.retrieve_none run).1⟩
    unfold Cache.retrieve at run
    dsimp only at run
    rcases Cache.scan_spec cache.lruEntries 0 none with
      ⟨_, above⟩ | ⟨candidate, place, entry, found, chosen⟩
    · intro entry member suit
      have large := above entry member ((suits entry member).mpr suit)
      have small := suit.slack_lt (entries entry member)
      rw [suit.slack_eq (entries entry member) args] at large
      change 2 ^ p.word.bits - 1 ≤ entry.slack p size alignment headersSize at large
      omega
    · rw [found] at run
      simp only [chosen.shape, Nat.zero_add, chosen.get, Prod.mk.injEq, reduceCtorEq,
        false_and] at run
  · intro entry _ small
    unfold CachedBlock.fragmentLimit
    rw [wrap_eq (by omega), wadd_eq small]

/-- An entry of ten pages at 16 MB. -/
def tenPages : CachedBlock where
  commitBase := 2 ^ 24
  commitSize := 40960
  blockBegin := 2 ^ 24
  memMap := MemMap.fresh (2 ^ 24) 40960
  time := 1

/-- A cache that holds this entry alone. -/
def tenPagesCached : Cache where
  quarantinePos := 0
  quarantine := []
  maxEntriesCount := 1
  maxEntrySize := 2 ^ 20
  oldestTime := 1
  releaseToOsIntervalMs := -1
  callsToRetrieve := 0
  successfulRetrieves := 0
  lruEntries := [tenPages]

theorem tenPages_range : ∀ entry ∈ tenPagesCached.lruEntries,
    InMapping Platform.linux64 entry.commitBase entry.commitSize entry.memMap := by
  intro entry member
  obtain rfl := List.mem_singleton.mp member
  exact ⟨by decide, by decide, by decide, by decide, by decide⟩

/-- An entry of `count` pages at `base`. -/
def pagesAt (base count : Nat) : CachedBlock :=
  { tenPages with
    commitBase := base
    commitSize := count * 4096
    blockBegin := base
    memMap := MemMap.fresh base (count * 4096) }

/-- Entries of ten, of seven, of nine and of four pages. -/
def fourCached : Cache :=
  { tenPagesCached with
    maxEntriesCount := 4
    lruEntries := [tenPages, pagesAt (2 ^ 25) 7, pagesAt (2 ^ 26) 9, pagesAt (2 ^ 27) 4] }

/-- A request of 20000 bytes gets the seven pages: two are left in front of the header, against
five and four of the larger entries, and four pages are too few. -/
theorem cache_retrieve_best_fit_sevenPages :
    ∃ taken headerPos cache', fourCached.retrieve Platform.linux64 8 20000 16 80 =
        (some (taken, headerPos), cache') ∧ taken.commitBase = 2 ^ 25 ∧
      ∃ entry, FoundBest Platform.linux64 fourCached cache' 8 20000 16 80 taken headerPos
        entry := by
  have range : ∀ entry ∈ fourCached.lruEntries,
      InMapping Platform.linux64 entry.commitBase entry.commitSize entry.memMap := by
    intro entry member
    simp only [fourCached, List.mem_cons, List.not_mem_nil, or_false] at member
    rcases member with rfl | rfl | rfl | rfl <;>
      exact ⟨by decide, by decide, by decide, by decide, by decide⟩
  obtain ⟨found, _, _⟩ := cache_retrieve_best_fit Platform.linux64 fourCached 8 20000 16 80
    range (by decide) (by decide) (by decide) (by decide)
  exact ⟨_, _, _, rfl, rfl, found _ _ _ rfl⟩

/-- With 2 ^ 52 pages allowed the limit wraps, and an entry within it is passed over. -/
theorem cache_retrieve_limit_wraps :
    ¬∀ (p : Platform) (cache : Cache) (maxPages size alignment headersSize : Nat),
      (∀ entry ∈ cache.lruEntries, InMapping p entry.commitBase entry.commitSize entry.memMap) →
      maxPages < 2 ^ p.word.bits → size < p.word.maxAllowedMallocSize →
      isPowerOfTwo alignment = true → alignment < p.page.bytes → headersSize < p.page.bytes →
      ∀ cache', cache.retrieve p maxPages size alignment headersSize = (none, cache') →
        ∀ entry ∈ cache.lruEntries,
          ¬(entry.commitBase + headersSize ≤ entry.userPos size alignment ∧
            entry.userPos size alignment ≤ entry.commitBase + maxPages * p.page.bytes) := by
  intro claim
  have passed := claim Platform.linux64 tenPagesCached (2 ^ 52) 20000 16 80 tenPages_range
    (by decide) (by decide) (by decide) (by decide) (by decide) _ rfl tenPages
    (List.mem_singleton_self _)
  exact passed (by decide)

end Scudo.Secondary
