import Scudo.SharedArena.RetrieveSpec

/-!
What one call can do. Each operation has an inductive description of its outcomes, and one
theorem says that the code ends in one of them; later proofs never unfold the operations.
-/

namespace Scudo.SharedArena
open Scudo.Lib

/-- Only the ring's dropped counter and the cached head may differ. -/
def SameButCounters (before after : Arena) : Prop :=
  ∃ head dropped, after =
    { before with logHeadCache := head, logRing := { before.logRing with dropped := dropped } }

theorem SameButCounters.refl (arena : Arena) : SameButCounters arena arena :=
  ⟨arena.logHeadCache, arena.logRing.dropped, rfl⟩

/-- What appending `entry` can do. -/
inductive AppendOutcome (env : EnvCache) (arena : Arena) (entry : SharedArenaLogEntry) :
    AppendResult → Prop
  | skipped (noKernel : env.allowNoKernel = true) : AppendOutcome env arena entry ⟨true, arena, none⟩
  | refused (arena' : Arena) (counters : SameButCounters arena arena') :
      AppendOutcome env arena entry ⟨false, arena', none⟩
  | published (kernel : env.allowNoKernel = false) (head : Nat) :
      AppendOutcome env arena entry
        ⟨true, { arena with logHeadCache := head }.publishLogEntry entry, some entry⟩

theorem refreshLogHead_cases (arena : Arena) (loads : HeadLoads) :
    (∃ head, arena.refreshLogHead loads = (true, { arena with logHeadCache := head })) ∨
      ∃ arena', arena.refreshLogHead loads = (false, arena') ∧ SameButCounters arena arena' := by
  unfold Arena.refreshLogHead
  dsimp only
  split_ifs
  · exact Or.inr ⟨_, rfl, _, _, rfl⟩
  · exact Or.inl ⟨_, rfl⟩
  · exact Or.inl ⟨_, rfl⟩
  · exact Or.inl ⟨_, rfl⟩

theorem appendLogPagesLocked_outcome (env : EnvCache) (page : PageSize) (arena : Arena)
    (loads : HeadLoads) (op : SharedArenaLogOp) (srcCpu startPage commitSize flags : Nat) :
    AppendOutcome env arena ⟨op, srcCpu, flags, startPage, wrap 32 (commitSize / page.bytes)⟩
      (arena.appendLogPagesLocked env page loads op srcCpu startPage commitSize flags) := by
  unfold Arena.appendLogPagesLocked
  cases kernel : env.allowNoKernel with
  | true =>
    rw [if_pos rfl]
    exact AppendOutcome.skipped kernel
  | false =>
    rw [if_neg (by simp)]
    split_ifs
    · exact AppendOutcome.refused arena (SameButCounters.refl arena)
    · exact AppendOutcome.refused arena (SameButCounters.refl arena)
    · rcases refreshLogHead_cases arena loads with ⟨head, room⟩ | ⟨arena', full, counters⟩
      · rw [room]
        exact AppendOutcome.published kernel head
      · rw [full]
        exact AppendOutcome.refused arena' counters

/-- The fields that say which arena an object describes. -/
structure SameIdentity (before after : Arena) : Prop where
  initialized : after.initialized = before.initialized
  coreId : after.coreId = before.coreId
  dataBase : after.dataBase = before.dataBase

theorem SameButCounters.identity {before after : Arena} (counters : SameButCounters before after) :
    SameIdentity before after := by
  obtain ⟨head, dropped, rfl⟩ := counters
  exact ⟨rfl, rfl, rfl⟩

section Append

variable {env : EnvCache} {arena : Arena} {entry : SharedArenaLogEntry} {result : AppendResult}

theorem AppendOutcome.identity (outcome : AppendOutcome env arena entry result) :
    SameIdentity arena result.arena := by
  cases outcome with
  | skipped noKernel => exact ⟨rfl, rfl, rfl⟩
  | refused arena' counters => exact counters.identity
  | published kernel head => exact ⟨rfl, rfl, rfl⟩

theorem AppendOutcome.failed (outcome : AppendOutcome env arena entry result)
    (failed : result.ok = false) : SameButCounters arena result.arena ∧ result.written = none := by
  cases outcome with
  | skipped noKernel => cases failed
  | refused arena' counters => exact ⟨counters, rfl⟩
  | published kernel head => cases failed

/-- With a kernel attached a successful append publishes its entry. -/
theorem AppendOutcome.written_eq (outcome : AppendOutcome env arena entry result)
    (succeeded : result.ok = true) (kernel : env.allowNoKernel = false) :
    result.written = some entry := by
  cases outcome with
  | skipped noKernel => simp [kernel] at noKernel
  | refused arena' counters => cases succeeded
  | published kernel head => rfl

end Append

theorem Arena.At.of_identity {before after : Arena} {core : Nat} (placed : before.At core)
    (same : SameIdentity before after) : after.At core :=
  ⟨placed.core_lt, same.coreId.trans placed.coreId, same.dataBase.trans placed.dataBase⟩

/-- An object that is in use describes the arena of `core`. -/
def Arena.Placed (arena : Arena) (core : Nat) : Prop := arena.initialized = true → arena.At core

theorem Arena.Placed.of_identity {before after : Arena} {core : Nat} (placed : before.Placed core)
    (same : SameIdentity before after) : after.Placed core := fun initialized =>
  (placed (same.initialized ▸ initialized)).of_identity same

/-- The arguments that `MapAllocator` passes to `retrieve` on a 4 KB page system. -/
structure Request (size alignment headersSize : Nat) : Prop where
  size_lt : size < 2 ^ 41
  power : isPowerOfTwo alignment = true
  alignment_lt : alignment < 4096
  headers_pos : 0 < headersSize
  headers_lt : headersSize < 2 ^ 40

instance (size alignment headersSize : Nat) : Decidable (Request size alignment headersSize) :=
  decidable_of_iff (size < 2 ^ 41 ∧ isPowerOfTwo alignment = true ∧ alignment < 4096 ∧
      0 < headersSize ∧ headersSize < 2 ^ 40)
    ⟨fun h => ⟨h.1, h.2.1, h.2.2.1, h.2.2.2.1, h.2.2.2.2⟩,
      fun h => ⟨h.size_lt, h.power, h.alignment_lt, h.headers_pos, h.headers_lt⟩⟩

/-- Pages that a request needs. -/
def pagesFor (size headersSize : Nat) : Nat := Arena.neededPages PageSize.small size headersSize

/-- The header of a block that ends on its last page boundary does not fit in front of the
user part once that is aligned down. -/
def Misfit (size alignment headersSize : Nat) : Prop :=
  roundDown 64 (Arena.neededSize PageSize.small size headersSize - size) alignment < headersSize

instance (size alignment headersSize : Nat) : Decidable (Misfit size alignment headersSize) :=
  inferInstanceAs (Decidable (_ < _))

section Request

variable {size alignment headersSize core : Nat}

theorem Request.neededSize_eq (request : Request size alignment headersSize) :
    Arena.neededSize PageSize.small size headersSize = roundUpSlow (size + headersSize) 4096 := by
  have sizeBound := request.size_lt
  have headersBound := request.headers_lt
  unfold Arena.neededSize
  rw [wadd_eq (by omega)]
  refine roundUp_eq PageSize.small.power ?_ (by decide)
  change size + headersSize + 4096 - 1 < 2 ^ 64
  omega

/-- No 32-bit or 64-bit computation of the page count wraps. -/
theorem Request.pages (request : Request size alignment headersSize) :
    Arena.neededSize PageSize.small size headersSize = pagesFor size headersSize * 4096 ∧
      size + headersSize ≤ pagesFor size headersSize * 4096 ∧
      pagesFor size headersSize * 4096 < size + headersSize + 4096 := by
  have sizeBound := request.size_lt
  have headersBound := request.headers_lt
  have below := roundUpSlow_lt (size + headersSize) (by decide : 0 < 4096)
  have above := le_roundUpSlow (size + headersSize) (by decide : 0 < 4096)
  have multiple := dvd_roundUpSlow (size + headersSize) 4096
  have count : pagesFor size headersSize = roundUpSlow (size + headersSize) 4096 / 4096 := by
    unfold pagesFor Arena.neededPages
    rw [request.neededSize_eq]
    apply wrap_eq
    change roundUpSlow (size + headersSize) 4096 / 4096 < 2 ^ 32
    omega
  rw [request.neededSize_eq, count, Nat.div_mul_cancel multiple]
  exact ⟨rfl, above, below⟩

theorem Request.pages_pos (request : Request size alignment headersSize) :
    0 < pagesFor size headersSize := by
  have headers := request.headers_pos
  have pages := request.pages
  omega

theorem Request.pages_lt (request : Request size alignment headersSize) :
    pagesFor size headersSize < 2 ^ 30 := by
  have sizeBound := request.size_lt
  have headersBound := request.headers_lt
  have pages := request.pages
  omega

theorem Request.alignment_dvd (request : Request size alignment headersSize) (off : Nat) :
    alignment ∣ pageAddr core off :=
  (isPowerOfTwo_dvd request.power (by decide) request.alignment_lt.le).trans (dvd_pageAddr core off)

/-- The user part starts at a fixed distance from the block, wherever the block is. -/
theorem Request.allocPos_eq (request : Request size alignment headersSize)
    (core_lt : core < kArenaMaxCores) {off : Nat} (inside : off ≤ arenaPages) :
    Arena.allocPosOf (pageAddr core off) (Arena.neededSize PageSize.small size headersSize) size alignment =
      pageAddr core off +
        roundDown 64 (Arena.neededSize PageSize.small size headersSize - size) alignment := by
  obtain ⟨exactSize, fits, _⟩ := request.pages
  have bound := pageAddr_lt core_lt inside
  have pages := request.pages_lt
  have small := request.alignment_lt
  unfold Arena.allocPosOf
  rw [exactSize, wadd_eq (by omega), wsub_eq (by omega) (by omega), Nat.add_sub_assoc (by omega),
    roundDown_eq request.power (by omega) (by omega),
    roundDown_eq request.power (by omega) (by omega), roundDownSlow_add (request.alignment_dvd off)]

theorem Request.roundDown_le (request : Request size alignment headersSize) :
    roundDown 64 (Arena.neededSize PageSize.small size headersSize - size) alignment ≤
      Arena.neededSize PageSize.small size headersSize - size := by
  obtain ⟨exactSize, _, _⟩ := request.pages
  have pages := request.pages_lt
  have small := request.alignment_lt
  rw [roundDown_eq request.power (by omega) (by omega)]
  exact roundDownSlow_le _ _

/-- The alignment exit of `retrieve` is taken exactly on a misfit. -/
theorem Request.exit_iff (request : Request size alignment headersSize)
    (core_lt : core < kArenaMaxCores) (off : Nat) (inside : off ≤ arenaPages) :
    (wsub 64 (Arena.allocPosOf (pageAddr core off) (Arena.neededSize PageSize.small size headersSize) size
          alignment) headersSize < pageAddr core off ∨
        wadd 64 (pageAddr core off) (Arena.neededSize PageSize.small size headersSize) <
          Arena.allocPosOf (pageAddr core off) (Arena.neededSize PageSize.small size headersSize) size
            alignment) ↔
      Misfit size alignment headersSize := by
  obtain ⟨exactSize, fits, _⟩ := request.pages
  have bound := pageAddr_lt core_lt inside
  have above := le_pageAddr core off
  have pages := request.pages_lt
  have headers := request.headers_lt
  have below := request.roundDown_le
  rw [request.allocPos_eq core_lt inside, wsub_eq (by omega) (by omega), wadd_eq (by omega)]
  unfold Misfit
  omega

end Request

/-- The entry that a successful `retrieve` appends. -/
def allocEntry (core : Nat) (x : Span) : SharedArenaLogEntry := ⟨.alloc, core, 0, x.start, x.len⟩

/-- The entry that a successful `store` appends. -/
def freeEntry (core : Nat) (x : Span) : SharedArenaLogEntry := ⟨.free, core, 0, x.start, x.len⟩

/-- What a successful `retrieve` returns for the pages `x`. -/
def handoutOf (core : Nat) (x : Span) (size alignment headersSize : Nat) : Handout where
  commitBase := pageAddr core x.start
  commitSize := x.len * 4096
  entryHeaderPos := pageAddr core x.start +
    roundDown 64 (Arena.neededSize PageSize.small size headersSize - size) alignment - headersSize

/-- What `retrieve` can do to an arena that represents `e`. -/
inductive RetrieveOutcome (env : EnvCache) (arena : Arena) (core : Nat) (m : ArenaMemory)
    (e : Extents arenaPages) (size alignment headersSize : Nat) : RetrieveResult → Prop
  | idle (idle : arena.initialized = false) :
      RetrieveOutcome env arena core m e size alignment headersSize ⟨none, m, arena, none⟩
  | exhausted (initialized : arena.initialized = true)
      (short : ¬Available env e (pagesFor size headersSize)) :
      RetrieveOutcome env arena core m e size alignment headersSize ⟨none, m, arena, none⟩
  | leaked (initialized : arena.initialized = true)
      (available : Available env e (pagesFor size headersSize))
      (misfit : Misfit size alignment headersSize) (m' : ArenaMemory) (x : Span)
      (e' : Extents arenaPages) (takes : e.Takes (pagesFor size headersSize) x e')
      (rep : Represents m' e') :
      RetrieveOutcome env arena core m e size alignment headersSize ⟨none, m', arena, none⟩
  | unlogged (initialized : arena.initialized = true)
      (available : Available env e (pagesFor size headersSize))
      (fits : ¬Misfit size alignment headersSize) (arena' : Arena)
      (counters : SameButCounters arena arena') :
      RetrieveOutcome env arena core m e size alignment headersSize ⟨none, m, arena', none⟩
  | handed (initialized : arena.initialized = true)
      (available : Available env e (pagesFor size headersSize))
      (fits : ¬Misfit size alignment headersSize) (m' : ArenaMemory) (x : Span)
      (e' : Extents arenaPages) (takes : e.Takes (pagesFor size headersSize) x e')
      (rep : Represents m' e') (arena' : Arena) (written : Option SharedArenaLogEntry)
      (append : AppendOutcome env arena (allocEntry core x) ⟨true, arena', written⟩) :
      RetrieveOutcome env arena core m e size alignment headersSize
        ⟨some (handoutOf core x size alignment headersSize), m', arena', written⟩

theorem relinkBlock_countRetrieval (m : ArenaMemory) (off allocSize : Nat) :
    (m.countRetrieval allocSize).relinkBlock off = (m.relinkBlock off).countRetrieval allocSize := by
  apply ArenaMemory.ext
  · simp only [ArenaMemory.countRetrieval, ArenaMemory.relinkBlock_hdr]
  · funext y
    simp only [ArenaMemory.countRetrieval, ArenaMemory.relinkBlock_prev]
  · funext y
    simp only [ArenaMemory.countRetrieval, ArenaMemory.relinkBlock_next]
  · funext y
    simp only [ArenaMemory.countRetrieval, ArenaMemory.relinkBlock_size]
  · funext y
    simp only [ArenaMemory.countRetrieval, ArenaMemory.relinkBlock_magic]

theorem setSize_countRetrieval (m : ArenaMemory) (off value allocSize : Nat) :
    (m.countRetrieval allocSize).setSize off value = (m.setSize off value).countRetrieval allocSize :=
  rfl

theorem setBump_countRetrieval (m : ArenaMemory) (value allocSize : Nat) :
    (m.countRetrieval allocSize).setBump value = (m.setBump value).countRetrieval allocSize := rfl

theorem countRetrieval_bump (m : ArenaMemory) (allocSize : Nat) :
    (m.countRetrieval allocSize).hdr.bumpOffsetInPages = m.hdr.bumpOffsetInPages := rfl

theorem countRetrieval_size (m : ArenaMemory) (allocSize : Nat) :
    (m.countRetrieval allocSize).sizeInPages = m.sizeInPages := rfl

theorem uncountRetrieval_countRetrieval (m : ArenaMemory) (allocSize : Nat) :
    (m.countRetrieval allocSize).uncountRetrieval allocSize = m := by
  simp only [ArenaMemory.countRetrieval, ArenaMemory.uncountRetrieval, UInt64.add_sub_cancel,
    UInt32.add_sub_cancel]

/-- The statistics counted before a failed append do not get in the way of the undo. -/
theorem untakePages_countRetrieval (page : PageSize) (arena : Arena) (m : ArenaMemory)
    (off need allocBase allocSize : Nat) :
    (arena.untakePages page (m.countRetrieval allocSize) off need allocBase).uncountRetrieval
        allocSize = arena.untakePages page m off need allocBase := by
  have commute : arena.untakePages page (m.countRetrieval allocSize) off need allocBase =
      (arena.untakePages page m off need allocBase).countRetrieval allocSize := by
    unfold Arena.untakePages
    split_ifs
    · exact relinkBlock_countRetrieval m off allocSize
    · rw [countRetrieval_size, setSize_countRetrieval]
    · rw [countRetrieval_bump, setBump_countRetrieval]
  rw [commute, uncountRetrieval_countRetrieval]

theorem Represents.countRetrieval {m : ArenaMemory} {capacity : Nat} {e : Extents capacity}
    (rep : Represents m e) (allocSize : Nat) : Represents (m.countRetrieval allocSize) e :=
  ⟨rep.total, rep.bump, rep.free.head, rep.free.count, rep.free.linked, rep.free.size,
    rep.free.magic⟩

theorem Represents.countDonation {m : ArenaMemory} {capacity : Nat} {e : Extents capacity}
    (rep : Represents m e) (commitSize : Nat) : Represents (m.countDonation commitSize) e :=
  ⟨rep.total, rep.bump, rep.free.head, rep.free.count, rep.free.linked, rep.free.size,
    rep.free.magic⟩

section Outcomes

variable {m : ArenaMemory} {e : Extents arenaPages} {arena : Arena}
  {core size alignment headersSize : Nat}

theorem takes_stop_le {need : Nat} {x : Span} {e' : Extents arenaPages}
    (takes : e.Takes need x e') : x.start + x.len ≤ arenaPages :=
  (e'.inside x (List.mem_append_right _ takes.mem_held)).trans e'.bounded

theorem wrap_coreId (placed : arena.At core) : wrap 8 arena.coreId = core := by
  have core_lt := placed.core_lt
  unfold kArenaMaxCores at core_lt
  rw [placed.coreId]
  exact wrap_eq (by omega)

theorem isAligned_pageAddr (core off : Nat) :
    isAligned (pageAddr core off) PageSize.small.bytes = true :=
  (isAligned_iff PageSize.small.power).mpr (dvd_pageAddr core off)

theorem wrap_pages {pages : Nat} (inside : pages ≤ arenaPages) :
    wrap 32 (pages * 4096 / PageSize.small.bytes) = pages := by
  rw [arenaPages_eq] at inside
  have quotient : pages * 4096 / PageSize.small.bytes = pages := Nat.mul_div_cancel pages (by decide)
  rw [quotient]
  exact wrap_eq (by omega)

theorem appendAlloc_outcome (placed : arena.At core) (env : EnvCache) (loads : HeadLoads) {x : Span}
    (inside : x.start + x.len ≤ arenaPages) :
    AppendOutcome env arena (allocEntry core x)
      (arena.appendLogLocked env PageSize.small loads .alloc (pageAddr core x.start) (x.len * 4096)
        0) := by
  have outcome := appendLogPagesLocked_outcome env PageSize.small arena loads .alloc core x.start
    (x.len * 4096) 0
  rw [wrap_pages (by omega)] at outcome
  unfold Arena.appendLogLocked
  rw [if_neg (by simp [isAligned_pageAddr]), placed.addrToPageOff (by omega), wrap_coreId placed]
  exact outcome

/-- Once pages are taken and the header fits, the log decides. -/
theorem retrieve_taken (initialized : arena.initialized = true) (placed : arena.At core)
    (request : Request size alignment headersSize) {env : EnvCache} (loads : HeadLoads) {off : Nat}
    {taken : Taken} {x : Span}
    (find : m.findBestFit env (pagesFor size headersSize) = some (off, m))
    (take : arena.takePages PageSize.small m off (pagesFor size headersSize) = some taken)
    (base : taken.allocBase = pageAddr core x.start) (len : x.len = pagesFor size headersSize)
    (inside : x.start + x.len ≤ arenaPages) (fits : ¬Misfit size alignment headersSize) :
    arena.retrieve env PageSize.small m loads size alignment headersSize =
      let appended := arena.appendLogLocked env PageSize.small loads .alloc (pageAddr core x.start)
        (x.len * 4096) 0
      let counted := taken.mem.countRetrieval (x.len * 4096)
      some (if appended.ok = false then
        ⟨none, (arena.untakePages PageSize.small counted off x.len
          (pageAddr core x.start)).uncountRetrieval (x.len * 4096), appended.arena, appended.written⟩
      else
        ⟨some (handoutOf core x size alignment headersSize), counted, appended.arena,
          appended.written⟩) := by
  obtain ⟨exactSize, _, _⟩ := request.pages
  have exitIff := request.exit_iff placed.core_lt x.start (by omega)
  have position : wsub 64 (Arena.allocPosOf (pageAddr core x.start)
      (Arena.neededSize PageSize.small size headersSize) size alignment) headersSize =
      (handoutOf core x size alignment headersSize).entryHeaderPos := by
    have inPool : x.start ≤ arenaPages := by omega
    have bound := pageAddr_lt placed.core_lt inPool
    have above := le_pageAddr core x.start
    have below := request.roundDown_le
    have headers := request.headers_lt
    have pages := request.pages_lt
    rw [request.allocPos_eq placed.core_lt inPool]
    exact wsub_eq (by omega) (by omega)
  unfold Arena.retrieve
  rw [if_neg (by simp [initialized]),
    show Arena.neededPages PageSize.small size headersSize = pagesFor size headersSize from rfl]
  simp only [find, take, base]
  rw [if_neg (fun exit => fits (exitIff.mp exit)), position, exactSize, ← len]
  split_ifs <;> rfl

/-- `retrieve` always ends, in one of the described ways. -/
theorem Represents.retrieve (rep : Represents m e) (placed : arena.Placed core)
    (request : Request size alignment headersSize) (env : EnvCache) (loads : HeadLoads) :
    ∃ result, arena.retrieve env PageSize.small m loads size alignment headersSize = some result ∧
      RetrieveOutcome env arena core m e size alignment headersSize result := by
  cases initialized : arena.initialized with
  | false =>
    unfold Arena.retrieve
    exact ⟨_, if_pos initialized, RetrieveOutcome.idle initialized⟩
  | true =>
    have placed := placed initialized
    obtain ⟨off, find, result⟩ := rep.takePages placed env request.pages_pos request.pages_lt
    rcases result with ⟨full, short⟩ | ⟨available, taken, x, e', took, done⟩
    · unfold Arena.retrieve
      rw [if_neg (by simp [initialized]),
        show Arena.neededPages PageSize.small size headersSize = pagesFor size headersSize from rfl]
      simp only [find, full]
      exact ⟨_, rfl, RetrieveOutcome.exhausted initialized short⟩
    · have len := done.takes.len_eq
      have inside := takes_stop_le done.takes
      by_cases misfit : Misfit size alignment headersSize
      · have exitIff := request.exit_iff placed.core_lt x.start (by omega)
        unfold Arena.retrieve
        rw [if_neg (by simp [initialized]),
          show Arena.neededPages PageSize.small size headersSize = pagesFor size headersSize from
            rfl]
        simp only [find, took, done.base]
        rw [if_pos (exitIff.mpr misfit)]
        exact ⟨_, rfl, RetrieveOutcome.leaked initialized available misfit _ x e' done.takes done.rep⟩
      · rw [retrieve_taken initialized placed request loads find took done.base len inside misfit]
        have append := appendAlloc_outcome placed env loads inside
        generalize arena.appendLogLocked env PageSize.small loads .alloc (pageAddr core x.start)
          (x.len * 4096) 0 = appended at append ⊢
        obtain ⟨ok, arena', written⟩ := appended
        cases ok with
        | false =>
          obtain ⟨counters, nothing⟩ := append.failed rfl
          have undone := done.undo
          rw [done.base, ← len] at undone
          simp only at nothing
          simp only [if_true, untakePages_countRetrieval, undone, nothing]
          exact ⟨_, rfl, RetrieveOutcome.unlogged initialized available misfit arena' counters⟩
        | true =>
          simp only [Bool.true_eq_false, if_false]
          exact ⟨_, rfl, RetrieveOutcome.handed initialized available misfit _ x e' done.takes
            (done.rep.countRetrieval _) arena' written append⟩

end Outcomes

/-- What `store` can do with a block that the arena has handed out. -/
inductive StoreOutcome (env : EnvCache) (arena log : Arena) (core : Nat) (m : ArenaMemory)
    (e : Extents arenaPages) (x : Span) (held : x ∈ e.held) : StoreResult → Prop
  | idle (idle : arena.initialized = false) :
      StoreOutcome env arena log core m e x held ⟨false, m, log, none⟩
  | unlogged (log' : Arena) (counters : SameButCounters log log') :
      StoreOutcome env arena log core m e x held ⟨false, m, log', none⟩
  | kept (disabled : env.disableFreelist = true) (m' : ArenaMemory)
      (rep : Represents m' (e.forget x)) (log' : Arena) (written : Option SharedArenaLogEntry)
      (append : AppendOutcome env log (freeEntry core x) ⟨true, log', written⟩) :
      StoreOutcome env arena log core m e x held ⟨true, m', log', written⟩
  | freed (enabled : env.disableFreelist = false) (m' : ArenaMemory)
      (rep : Represents m' (e.giveBack x held)) (log' : Arena)
      (written : Option SharedArenaLogEntry)
      (append : AppendOutcome env log (freeEntry core x) ⟨true, log', written⟩) :
      StoreOutcome env arena log core m e x held ⟨true, m', log', written⟩

section Store

variable {m : ArenaMemory} {e : Extents arenaPages} {arena : Arena} {core : Nat}

theorem Represents.validRange (rep : Represents m e) (placed : arena.At core) {x : Span}
    (held : x ∈ e.held) :
    arena.validRange PageSize.small m (pageAddr core x.start) (x.len * 4096) = true := by
  have positive := e.nonempty x (List.mem_append_right _ held)
  have inside : x.start + x.len ≤ arenaPages :=
    (e.inside x (List.mem_append_right _ held)).trans e.bounded
  have multiple : isAligned (x.len * 4096) PageSize.small.bytes = true :=
    (isAligned_iff PageSize.small.power).mpr (Nat.dvd_mul_left 4096 x.len)
  unfold Arena.validRange
  simp only [isAligned_pageAddr, multiple, Bool.and_eq_true, Bool.true_and, decide_eq_true_eq]
  rw [placed.addrToPageOff (by omega), wrap_pages (by omega), rep.total]
  omega

/-- `store` of a handed-out block always ends, in one of the described ways. -/
theorem Represents.store (rep : Represents m e) (placed : arena.Placed core) {x : Span}
    (held : x ∈ e.held) (env : EnvCache) (logArena : Option Arena) (loads : HeadLoads) :
    ∃ result, arena.store env PageSize.small logArena m loads (pageAddr core x.start)
        (x.len * 4096) = some result ∧
      StoreOutcome env arena (logArena.getD arena) core m e x held result := by
  have positive := e.nonempty x (List.mem_append_right _ held)
  have inside : x.start + x.len ≤ arenaPages :=
    (e.inside x (List.mem_append_right _ held)).trans e.bounded
  unfold Arena.store
  cases initialized : arena.initialized with
  | false => exact ⟨_, if_pos (Or.inl rfl), StoreOutcome.idle initialized⟩
  | true =>
    have placed := placed initialized
    have proceeds : ¬(true = false ∨ x.len * 4096 = 0) := by
      rintro (impossible | zero)
      · cases impossible
      · omega
    have append := appendLogPagesLocked_outcome env PageSize.small (logArena.getD arena) loads .free
      core x.start (x.len * 4096) 0
    have startInPool : x.start ≤ arenaPages := by omega
    have lenInPool : x.len ≤ arenaPages := by omega
    rw [wrap_pages lenInPool] at append
    simp only [proceeds, if_false, rep.validRange placed held, placed.addrToPageOff startInPool,
      wrap_coreId placed, wrap_pages lenInPool]
    generalize (logArena.getD arena).appendLogPagesLocked env PageSize.small loads .free core x.start
      (x.len * 4096) 0 = appended at append ⊢
    obtain ⟨ok, log', written⟩ := appended
    cases ok with
    | false =>
      obtain ⟨counters, nothing⟩ := append.failed rfl
      simp only at nothing
      rw [nothing]
      exact ⟨_, rfl, StoreOutcome.unlogged log' counters⟩
    | true =>
      cases disabled : env.disableFreelist with
      | true =>
        have same : Represents m (e.forget x) := ⟨rep.total, rep.bump, rep.free⟩
        exact ⟨_, rfl, StoreOutcome.kept disabled _ (same.countDonation _) log' written append⟩
      | false =>
        obtain ⟨m', insert, rep'⟩ := rep.insertFree arenaPages_small held
        simp only [insert]
        exact ⟨_, rfl, StoreOutcome.freed disabled _ (rep'.countDonation _) log' written append⟩

/-- A `store` that returns false, of any range, changes nothing but the counters. -/
theorem store_failed {env : EnvCache} {page : PageSize} {logArena : Option Arena}
    {loads : HeadLoads} {commitBase commitSize : Nat} {result : StoreResult}
    (run : arena.store env page logArena m loads commitBase commitSize = some result)
    (failed : result.ok = false) :
    result.mem = m ∧ SameButCounters (logArena.getD arena) result.logArena ∧
      result.written = none := by
  have append := appendLogPagesLocked_outcome env page (logArena.getD arena) loads .free
    (wrap 8 arena.coreId) (arena.addrToPageOff page commitBase) commitSize 0
  unfold Arena.store at run
  dsimp only at run
  split_ifs at run with idle range refused disabled
  · cases run
    exact ⟨rfl, SameButCounters.refl _, rfl⟩
  · cases run
    exact ⟨rfl, SameButCounters.refl _, rfl⟩
  · cases run
    exact ⟨rfl, append.failed refused⟩
  · cases run
    cases failed
  · split at run
    · cases run
    · cases run
      cases failed

end Store

end Scudo.SharedArena
