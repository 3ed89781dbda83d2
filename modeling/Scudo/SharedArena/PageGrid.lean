import Scudo.SharedArena.BestFit

/-!
The page grid of an arena. The header area has a constant size, while offsets, the log and the range
check of `store` count in pages of the system's size.
-/

namespace Scudo.SharedArena
open Scudo.Lib

/-- The arguments that `MapAllocator` passes to `retrieve` on a system with the given pages. -/
structure RequestOn (page : PageSize) (size alignment headersSize : Nat) : Prop where
  size_lt : size < 2 ^ 41
  power : isPowerOfTwo alignment = true
  alignment_lt : alignment < page.bytes
  headers_pos : 0 < headersSize
  headers_lt : headersSize < 2 ^ 40

/-- What the arena relies on: offsets and addresses of data pages agree and stay in the arena, a page
that `retrieve` took can be logged unless the ring is full, and `store` takes back what `retrieve`
returned as long as the ring has room for the entry. -/
structure PageGridWorks (page : PageSize) : Prop where
  grid : ∀ (core : Nat) (arena : Arena) (off : Nat), arena.At core → off < totalDataPagesOf page →
    page.bytes ∣ arena.pageOffToAddr page off ∧
      arena.addrToPageOff page (arena.pageOffToAddr page off) = off ∧
      arena.pageOffToAddr page off + page.bytes ≤ baseAddrOf core + kArenaCapacityPerCore
  logged : ∀ (env : EnvCache) (core : Nat) (arena : Arena) (m : ArenaMemory)
    (e : Extents (totalDataPagesOf page)) (loads : HeadLoads) (size alignment headersSize off : Nat)
    (m' : ArenaMemory) (taken : Taken),
    arena.At core → Represents m e → RequestOn page size alignment headersSize →
    m.findBestFit env (Arena.neededPages page size headersSize) = some (off, m') →
    arena.takePages page m' off (Arena.neededPages page size headersSize) = some taken →
    (arena.appendLogLocked env page loads .alloc taken.allocBase
      (Arena.neededSize page size headersSize) 0).ok = false → ¬LogRoom env arena loads
  accepted : ∀ (env : EnvCache) (core : Nat) (arena : Arena) (m : ArenaMemory)
    (e : Extents (totalDataPagesOf page)) (loads : HeadLoads) (size alignment headersSize : Nat)
    (result : RetrieveResult) (out : Handout) (logArena : Option Arena) (later : HeadLoads),
    arena.Placed core → Represents m e → RequestOn page size alignment headersSize →
    arena.retrieve env page m loads size alignment headersSize = some result →
    result.out = some out → LogRoom env (logArena.getD result.arena) later →
    ∃ stored, result.arena.store env page logArena result.mem later out.commitBase
      out.commitSize = some stored ∧ stored.ok = true

section Address

variable {page : PageSize} {arena : Arena} {core off : Nat}

theorem page_dvd_pow (page : PageSize) {k : Nat} (large : 29 ≤ k) : page.bytes ∣ 2 ^ k := by
  have top : page.bytes ≤ 2 ^ k :=
    page.atMost.trans (Nat.pow_le_pow_right (by decide) large)
  exact isPowerOfTwo_dvd page.power (isPowerOfTwo_iff.mpr ⟨k, rfl⟩) top

theorem pages_fit (page : PageSize) :
    kArenaHeaderSize + totalDataPagesOf page * page.bytes ≤ kArenaCapacityPerCore := by
  have cut := Nat.div_mul_le_self (kArenaCapacityPerCore - kArenaHeaderSize) page.bytes
  unfold totalDataPagesOf
  unfold kArenaCapacityPerCore kArenaHeaderSize at *
  omega

/-- Where the arenas start is aligned to every page size. -/
theorem page_dvd_baseAddrOf (page : PageSize) (core : Nat) : page.bytes ∣ baseAddrOf core := by
  have base : page.bytes ∣ kSharedArenaBaseAddr := page_dvd_pow page (by decide : 29 ≤ 45)
  have step : page.bytes ∣ kArenaCapacityPerCore := page_dvd_pow page (by decide : 29 ≤ 29)
  exact Nat.dvd_add base (Dvd.dvd.mul_left step core)

/-- A data page is aligned exactly when pages have the size of the header area. -/
theorem page_dvd_pageOffToAddr_iff (placed : arena.At core) (off : Nat) :
    page.bytes ∣ arena.pageOffToAddr page off ↔ page.bytes = 4096 := by
  have wraps : page.bytes ∣ 2 ^ 64 := page_dvd_pow page (by decide)
  have multiple : page.bytes ∣ baseAddrOf core + off * page.bytes :=
    Nat.dvd_add (page_dvd_baseAddrOf page core) (Nat.dvd_mul_left _ _)
  have shape : arena.pageOffToAddr page off =
      (baseAddrOf core + off * page.bytes + kArenaHeaderSize) % 2 ^ 64 := by
    unfold Arena.pageOffToAddr wadd wrap
    rw [placed.dataBase]
    unfold dataBaseOf
    congr 1
    omega
  have least := page.atLeast
  rw [shape, Nat.dvd_mod_iff wraps, Nat.dvd_add_right multiple]
  unfold kArenaHeaderSize
  constructor
  · intro divides
    exact le_antisymm (Nat.le_of_dvd (by decide) divides) least
  · intro same
    rw [same]

end Address

section Small

variable {env : EnvCache} {arena : Arena} {core : Nat} {m : ArenaMemory}
  {size alignment headersSize : Nat}

theorem page_eq_small {page : PageSize} (same : page.bytes = 4096) : page = PageSize.small := by
  obtain ⟨bytes, power, atLeast, atMost⟩ := page
  subst same
  rfl

theorem RequestOn.request (request : RequestOn PageSize.small size alignment headersSize) :
    Request size alignment headersSize :=
  ⟨request.size_lt, request.power, request.alignment_lt, request.headers_pos, request.headers_lt⟩

/-- A valid range is stored once the log takes the entry. -/
theorem store_ok_of_room {page : PageSize} {logArena : Option Arena} {loads : HeadLoads}
    {commitBase commitSize : Nat} {stored : StoreResult} (initialized : arena.initialized = true)
    (nonempty : commitSize ≠ 0) (valid : arena.validRange page m commitBase commitSize = true)
    (room : LogRoom env (logArena.getD arena) loads)
    (run : arena.store env page logArena m loads commitBase commitSize = some stored) :
    stored.ok = true := by
  have aligned : isAligned commitSize page.bytes = true := by
    unfold Arena.validRange at valid
    simp only [Bool.and_eq_true] at valid
    exact valid.1.1.1.2
  have logged := room.append_ok .free (wrap 8 arena.coreId) (arena.addrToPageOff page commitBase) 0
    nonempty aligned
  unfold Arena.store at run
  dsimp only at run
  rw [if_neg (by simp [initialized, nonempty]), if_neg (by simp [valid]), if_neg (by simp [logged])]
    at run
  split_ifs at run with disabled
  · cases run
    rfl
  · split at run
    · cases run
    · cases run
      rfl

/-- With 4 KB pages a page that was taken is logged unless the ring is full. -/
theorem small_logged {e : Extents arenaPages} {loads : HeadLoads} {off : Nat} {m' : ArenaMemory}
    {taken : Taken} (placed : arena.At core) (rep : Represents m e)
    (request : Request size alignment headersSize)
    (find : m.findBestFit env (pagesFor size headersSize) = some (off, m'))
    (take : arena.takePages PageSize.small m' off (pagesFor size headersSize) = some taken)
    (room : LogRoom env arena loads) :
    (arena.appendLogLocked env PageSize.small loads .alloc taken.allocBase
      (Arena.neededSize PageSize.small size headersSize) 0).ok = true := by
  obtain ⟨off', find', result⟩ := rep.takePages placed env request.pages_pos request.pages_lt
  obtain ⟨rfl, rfl⟩ : off' = off ∧ m = m' := by
    rw [find] at find'
    simpa [eq_comm] using find'
  obtain ⟨exactSize, _, _⟩ := request.pages
  rcases result with ⟨full, _⟩ | ⟨_, taken', x, e', took, done⟩
  · rw [full] at take
    cases take
  · obtain rfl : taken' = taken := by
      rw [took] at take
      exact Option.some.inj take
    have len := done.takes.len_eq
    rw [done.base, exactSize, ← len]
    exact room.appendAlloc_ok core (len ▸ request.pages_pos)

/-- With 4 KB pages `store` takes back what `retrieve` handed out. -/
theorem small_accepted {e : Extents arenaPages} {loads later : HeadLoads} {result : RetrieveResult}
    {out : Handout} {logArena : Option Arena} (placed : arena.Placed core) (rep : Represents m e)
    (request : Request size alignment headersSize)
    (run : arena.retrieve env PageSize.small m loads size alignment headersSize = some result)
    (success : result.out = some out) (room : LogRoom env (logArena.getD result.arena) later) :
    ∃ stored, result.arena.store env PageSize.small logArena result.mem later out.commitBase
      out.commitSize = some stored ∧ stored.ok = true := by
  obtain ⟨result', run', outcome⟩ := rep.retrieve placed request env loads
  obtain rfl : result' = result := by
    rw [run] at run'
    exact (Option.some.inj run').symm
  cases outcome with
  | idle idle => cases success
  | exhausted initialized short => cases success
  | leaked initialized available misfit m' x e' takes rep' => cases success
  | unlogged initialized available fits arena' counters => cases success
  | handed initialized available fits m' x e' takes rep' arena' written append =>
    cases success
    have same := append.identity
    have held := takes.mem_held
    have initialized' : arena'.initialized = true := same.initialized.trans initialized
    have placed' := (placed.of_identity same) initialized'
    have positive := e'.nonempty x (List.mem_append_right _ held)
    obtain ⟨stored, store, _⟩ := rep'.store (fun _ => placed') held env logArena later
    exact ⟨stored, store, store_ok_of_room initialized' (by omega) (rep'.validRange placed' held)
      room store⟩

end Small

/-- The grid works for 4 KB pages. -/
theorem small_pageGridWorks : PageGridWorks PageSize.small where
  grid := by
    intro core arena off placed inside
    have fits := pages_fit PageSize.small
    have pages := arenaPages_eq
    refine ⟨(page_dvd_pageOffToAddr_iff placed off).mpr rfl, ?_, ?_⟩
    · rw [placed.pageOffToAddr inside.le, placed.addrToPageOff inside.le]
    · rw [placed.pageOffToAddr inside.le]
      change off < arenaPages at inside
      unfold pageAddr dataBaseOf
      change _ + 4096 ≤ _
      unfold kArenaHeaderSize kArenaCapacityPerCore
      omega
  logged := by
    intro env core arena m e loads size alignment headersSize off m' taken placed rep request find
      take refused room
    have logged := small_logged placed rep request.request find take room
    rw [refused] at logged
    cases logged
  accepted := by
    intro env core arena m e loads size alignment headersSize result out logArena later placed rep
      request run success room
    exact small_accepted placed rep request.request run success room

section NoPages

variable {page : PageSize} {env : EnvCache} {arena : Arena} {core : Nat} {m : ArenaMemory}
  {size alignment headersSize : Nat}

theorem RequestOn.pages_pos (request : RequestOn page size alignment headersSize) :
    0 < Arena.neededPages page size headersSize ∧
      Arena.neededPages page size headersSize < 2 ^ 32 := by
  have sizeBound := request.size_lt
  have headers := request.headers_pos
  have headersBound := request.headers_lt
  have atMost := page.atMost
  have positive := page.pos
  have above := le_roundUpSlow (size + headersSize) positive
  have below := roundUpSlow_lt (size + headersSize) positive
  have rounded : Arena.neededSize page size headersSize =
      roundUpSlow (size + headersSize) page.bytes := by
    unfold Arena.neededSize
    rw [wadd_eq (by omega)]
    exact roundUp_eq page.power (by omega) (by omega)
  have few : roundUpSlow (size + headersSize) page.bytes / page.bytes < 2 ^ 32 := by
    have least := page.atLeast
    rw [Nat.div_lt_iff_lt_mul positive]
    omega
  have some : 0 < roundUpSlow (size + headersSize) page.bytes / page.bytes := by
    have multiple := dvd_roundUpSlow (size + headersSize) page.bytes
    exact Nat.div_pos (Nat.le_of_dvd (by omega) multiple) positive
  unfold Arena.neededPages
  rw [rounded, wrap_eq few]
  exact ⟨some, few⟩

/-- Without a data page nothing can be taken. -/
theorem takePages_of_no_pages (none : totalDataPagesOf page = 0)
    {e : Extents (totalDataPagesOf page)} (rep : Represents m e)
    (request : RequestOn page size alignment headersSize) {off : Nat} {m' : ArenaMemory}
    (find : m.findBestFit env (Arena.neededPages page size headersSize) = some (off, m')) :
    arena.takePages page m' off (Arena.neededPages page size headersSize) = Option.none := by
  obtain ⟨positive, bounded⟩ := request.pages_pos
  have small : totalDataPagesOf page < kFreeListEnd := by
    rw [none]
    decide
  have bump : e.bump = 0 := by
    have bound := e.bounded
    omega
  have empty : ¬FreeFit env e (Arena.neededPages page size headersSize) := by
    rintro ⟨_, b, member, large⟩
    have inside := e.inside b (List.mem_append_left _ member)
    unfold Span.stop at inside
    omega
  obtain ⟨off', find', best⟩ :=
    rep.findBestFit small env (Arena.neededPages page size headersSize)
  rw [find] at find'
  obtain ⟨rfl, rfl⟩ : off = off' ∧ m' = m := by simpa using find'
  rcases best with ⟨rfl, _⟩ | ⟨fit, _⟩
  · have untouched : arena.takeFree page m' kFreeListEnd
        (Arena.neededPages page size headersSize) = ⟨m', 0⟩ := if_neg (not_not_intro rfl)
    unfold Arena.takePages Arena.takeBump
    rw [untouched, if_pos rfl]
    simp only [rep.bump, rep.total, bump, none]
    rw [wadd_eq (by omega), if_pos (by omega)]
  · exact absurd fit empty

/-- Without a data page all promises are empty. -/
theorem pageGridWorks_of_no_pages (none : totalDataPagesOf page = 0) : PageGridWorks page where
  grid := by
    intro core arena off placed inside
    omega
  logged := by
    intro env core arena m e loads size alignment headersSize off m' taken placed rep request find
      take refused
    rw [takePages_of_no_pages none rep request find] at take
    cases take
  accepted := by
    intro env core arena m e loads size alignment headersSize result out logArena later placed rep
      request run success room
    have failed : result.out = Option.none := by
      unfold Arena.retrieve at run
      split_ifs at run with idle
      · cases run
        rfl
      · dsimp only at run
        split at run
        · cases run
        · next off m' find =>
          rw [takePages_of_no_pages none rep request find] at run
          cases run
          rfl
    rw [failed] at success
    cases success

end NoPages

/-- The page grid works exactly for pages of the size of the header area, and for pages so large that
the arena has no data page at all. -/
theorem page_grid_works_iff (page : PageSize) :
    PageGridWorks page ↔ page.bytes = 4096 ∨ totalDataPagesOf page = 0 := by
  constructor
  · intro works
    by_cases none : totalDataPagesOf page = 0
    · exact Or.inr none
    · left
      have placed : (World.freshObject 0).At 0 := ⟨by decide, rfl, rfl⟩
      have aligned := (works.grid 0 (World.freshObject 0) 0 placed (by omega)).1
      exact (page_dvd_pageOffToAddr_iff placed 0).mp aligned
  · rintro (same | none)
    · rw [page_eq_small same]
      exact small_pageGridWorks
    · exact pageGridWorks_of_no_pages none

/-- The 16 KB page. -/
def page16K : PageSize := ⟨16384, by decide, by decide, by decide⟩

/-- With 16 KB pages the first data page of core 0 is not aligned. -/
theorem page_grid_fails_16K : ¬∀ page : PageSize, PageGridWorks page := by
  intro claim
  have placed : (World.freshObject 0).At 0 := ⟨by decide, rfl, rfl⟩
  have aligned := ((claim page16K).grid 0 (World.freshObject 0) 0 placed (by decide)).1
  exact absurd aligned (by decide)

end Scudo.SharedArena
