import Scudo.SharedArena.Log

/-!
The pool of one process: its state, its first initialisation and its refresh after a fork, and
the lookups from a CPU or an address to an arena. The outcome of every system call is an
argument. The objects of the arenas are kept next to the pool, indexed by core.
-/

namespace Scudo.SharedArena

structure Pool where
  initialized : Bool
  ownerPid : Nat
  numCores : Nat
  deriving DecidableEq, Repr

/-- Outcomes of the calls of one `SharedArena::init`: `shm_open` and `ftruncate`, the mapping
of the arena and of its ring, and the registration of the ring. -/
structure InitCalls where
  backing : Bool
  map : Bool
  ring : Bool
  register : Bool
  deriving DecidableEq, Repr

/-- The same for a refresh; `backing` tells whether the descriptor is still there. -/
structure RefreshCalls where
  backing : Bool
  remap : Bool
  ring : Bool
  register : Bool
  deriving DecidableEq, Repr

namespace Arena

/-- The object before any `init`. -/
def unset : Arena :=
  { initialized := false
    coreId := 0
    baseAddr := 0
    dataBase := 0
    logRing := ⟨0, 0, 0, 0, 0, 0, 0, 0, 0, fun _ => none⟩
    logHeadCache := 0
    logTailCache := 0
    logCapacityCache := 0
    logCapacityMask := 0 }

/-- Forget the ring. -/
def dropLogRing (arena : Arena) : Arena :=
  { arena with logHeadCache := 0, logTailCache := 0, logCapacityCache := 0, logCapacityMask := 0 }

/-- `SharedArena::init`, less the handshake that writes the shared header. A failure leaves
`initialized` as it was. -/
def init (page : PageSize) (calls : InitCalls) (id : Nat) (arena : Arena) : Bool × Arena :=
  let arena := { arena with
    coreId := id
    baseAddr := wadd 64 kSharedArenaBaseAddr (id * kArenaCapacityPerCore)
    dataBase :=
      wadd 64 (wadd 64 kSharedArenaBaseAddr (id * kArenaCapacityPerCore)) kArenaHeaderSize }
  if calls.backing = false then (false, arena)
  else if calls.map = false then (false, arena)
  else
    match arena.initLogRing page calls.ring (totalDataPagesOf page) with
    | (false, arena) => (false, arena)
    | (true, arena) =>
      if calls.register = false then (false, arena.dropLogRing)
      else (true, { arena with initialized := true })

def refreshLogRingForCurrentProcess (page : PageSize) (calls : RefreshCalls) (arena : Arena) :
    Bool × Arena :=
  if arena.initialized = false then (true, arena)
  else if calls.backing = false ∨ arena.baseAddr = 0 then (false, arena)
  else if calls.remap = false then (false, arena)
  else
    match arena.dropLogRing.initLogRing page calls.ring (totalDataPagesOf page) with
    | (false, arena) => (false, arena)
    | (true, arena) => (calls.register, arena)

end Arena

/-- The loops of `init`: run `act` on the arenas of the first cores, and tell whether it
succeeded on all of them. -/
def forEachCore (act : Nat → Arena → Bool × Arena) : Nat → (Nat → Arena) → Bool × (Nat → Arena)
  | 0, arenas => (true, arenas)
  | cores + 1, arenas =>
    let before := forEachCore act cores arenas
    let last := act cores (before.2 cores)
    (before.1 && last.1, Function.update before.2 cores last.2)

/-- What a call of `SharedArenaPool::init` finds: the process, the setting that disables the
pool, the number of CPUs (0 when it cannot be told) and the outcomes for every core. -/
structure PoolCalls where
  pid : Nat
  disabled : Bool
  numberOfCPUs : Nat
  init : Nat → InitCalls
  refresh : Nat → RefreshCalls

namespace Pool

/-- Before the first `init`. -/
def unset : Pool := ⟨false, 0, 0⟩

def isReady (pool : Pool) : Bool := pool.initialized

/-- At least one core, at most as many as there are arenas. -/
def clampCores (cpus : Nat) : Nat :=
  let cores := if cpus = 0 then 1 else cpus
  if kArenaMaxCores < cores then kArenaMaxCores else cores

def init (page : PageSize) (calls : PoolCalls) (pool : Pool) (arenas : Nat → Arena) :
    Pool × (Nat → Arena) :=
  if calls.disabled then (⟨false, calls.pid, 0⟩, arenas)
  else if pool.initialized ∧ pool.ownerPid = calls.pid then (pool, arenas)
  else if pool.initialized ∧ pool.ownerPid ≠ calls.pid then
    let all := forEachCore
      (fun core => Arena.refreshLogRingForCurrentProcess page (calls.refresh core))
      pool.numCores arenas
    ({ pool with
      initialized := all.1
      ownerPid := if all.1 then calls.pid else pool.ownerPid }, all.2)
  else
    let cores := clampCores calls.numberOfCPUs
    let all := forEachCore (fun core => Arena.init page (calls.init core) core) cores arenas
    ({ initialized := all.1
       ownerPid := if all.1 then calls.pid else pool.ownerPid
       numCores := cores }, all.2)

/-- `answer` stands for the settings for tests and the pressure check. -/
def shouldUseArena (page : PageSize) (calls : PoolCalls) (answer : Bool) (pool : Pool)
    (arenas : Nat → Arena) : Bool × Pool × (Nat → Arena) :=
  if pool.initialized = false then (false, pool, arenas)
  else if pool.ownerPid ≠ calls.pid then
    let refreshed := pool.init page calls arenas
    (refreshed.1.initialized && answer, refreshed)
  else (answer, pool, arenas)

/-- The end of the window of all arenas. -/
def windowEnd (pool : Pool) : Nat :=
  wadd 64 kSharedArenaBaseAddr (wrap 64 (pool.numCores * kArenaCapacityPerCore))

def isArenaAddr (pool : Pool) (va : Nat) : Bool :=
  pool.initialized && decide (kSharedArenaBaseAddr ≤ va) && decide (va < pool.windowEnd)

/-- The core whose arena is used on `cpu`, `none` where the CPU cannot be told. -/
def getCurrentArena (pool : Pool) (arenas : Nat → Arena) (cpu : Option Nat) : Option Nat :=
  if pool.initialized = false then none
  else
    match cpu with
    | none => none
    | some cpu =>
      if pool.numCores ≤ cpu then none
      else if (arenas cpu).initialized then some cpu else none

def getOwningArena (pool : Pool) (arenas : Nat → Arena) (va : Nat) : Option Nat :=
  if pool.initialized = false ∨ pool.isArenaAddr va = false then none
  else
    let core := wrap 32 (wsub 64 va kSharedArenaBaseAddr / kArenaCapacityPerCore)
    if pool.numCores ≤ core then none
    else if (arenas core).initialized then some core else none

end Pool

/-- Every initialised arena can be refreshed: base and descriptor are there, and no system call
fails. -/
def RefreshWorks (calls : PoolCalls) (pool : Pool) (arenas : Nat → Arena) : Prop :=
  ∀ core, core < pool.numCores → (arenas core).initialized = true →
    (arenas core).baseAddr ≠ 0 ∧ calls.refresh core = ⟨true, true, true, true⟩

/-- The pool is ready and tells the blocks of this core by their address. -/
def Pool.Covers (pool : Pool) (core : Nat) : Prop :=
  pool.initialized = true ∧ core < pool.numCores

section Loops

variable {act : Nat → Arena → Bool × Arena} {cores : Nat} {arenas : Nat → Arena}

/-- A loop leaves the objects of later cores alone. -/
theorem forEachCore_later {core : Nat} (later : cores ≤ core) :
    (forEachCore act cores arenas).2 core = arenas core := by
  induction cores with
  | zero => rfl
  | succ cores ih =>
    unfold forEachCore
    dsimp only
    rw [Function.update_of_ne (by omega)]
    exact ih (by omega)

/-- A loop succeeds if every core does, from the object it has before the loop. -/
theorem forEachCore_ok (all : ∀ core, core < cores → (act core (arenas core)).1 = true) :
    (forEachCore act cores arenas).1 = true := by
  induction cores with
  | zero => rfl
  | succ cores ih =>
    unfold forEachCore
    dsimp only
    rw [ih (fun core below => all core (by omega)), forEachCore_later le_rfl,
      all cores (Nat.lt_succ_self cores)]
    rfl

end Loops

section Refresh

variable {page : PageSize} {calls : PoolCalls} {pool : Pool} {arenas : Nat → Arena} {core : Nat}

theorem Arena.initLogRing_ok {totalDataPages : Nat} (arena : Arena) :
    (arena.initLogRing page true totalDataPages).1 = true := by
  have atLeast := page.atLeast
  unfold Arena.initLogRing kLogRingHeaderBytes kLogEntryBytes
  rw [if_neg (by simp), if_neg (by omega), if_neg (by omega)]

theorem RefreshWorks.ok (works : RefreshWorks calls pool arenas) :
    (forEachCore (fun core => Arena.refreshLogRingForCurrentProcess page (calls.refresh core))
      pool.numCores arenas).1 = true := by
  apply forEachCore_ok
  intro core below
  cases initialized : (arenas core).initialized with
  | false =>
    unfold Arena.refreshLogRingForCurrentProcess
    rw [if_pos initialized]
  | true =>
    obtain ⟨base, succeeds⟩ := works core below initialized
    have ring : ((arenas core).dropLogRing.initLogRing page true (totalDataPagesOf page)).1 = true :=
      Arena.initLogRing_ok _
    unfold Arena.refreshLogRingForCurrentProcess
    rw [succeeds, if_neg (by simp [initialized]), if_neg (by simp [base]), if_neg (by simp)]
    split
    · next failed =>
      rw [failed] at ring
      cases ring
    · rfl

/-- A refresh that works loses no core. -/
theorem Pool.init_covers (covers : pool.Covers core) (enabled : calls.disabled = false)
    (works : pool.ownerPid ≠ calls.pid → RefreshWorks calls pool arenas) :
    (pool.init page calls arenas).1.Covers core := by
  obtain ⟨initialized, below⟩ := covers
  unfold Pool.init
  rw [if_neg (by simp [enabled])]
  by_cases own : pool.ownerPid = calls.pid
  · rw [if_pos ⟨initialized, own⟩]
    exact ⟨initialized, below⟩
  · rw [if_neg (fun both => own both.2), if_pos ⟨initialized, own⟩]
    exact ⟨(works own).ok, below⟩

theorem Pool.shouldUseArena_covers {answer : Bool} (covers : pool.Covers core)
    (enabled : calls.disabled = false)
    (works : pool.ownerPid ≠ calls.pid → RefreshWorks calls pool arenas) :
    (pool.shouldUseArena page calls answer arenas).2.1.Covers core := by
  unfold Pool.shouldUseArena
  rw [if_neg (by simp [covers.1])]
  split_ifs
  · exact Pool.init_covers covers enabled works
  · exact covers

theorem Pool.clampCores_le (cpus : Nat) : Pool.clampCores cpus ≤ kArenaMaxCores := by
  unfold Pool.clampCores
  dsimp only
  split_ifs <;> omega

/-- There are never more cores than arenas. -/
theorem Pool.init_numCores (small : pool.numCores ≤ kArenaMaxCores) :
    (pool.init page calls arenas).1.numCores ≤ kArenaMaxCores := by
  unfold Pool.init
  split_ifs
  · exact Nat.zero_le _
  · exact small
  · exact small
  · exact Pool.clampCores_le _

theorem Pool.shouldUseArena_numCores {answer : Bool} (small : pool.numCores ≤ kArenaMaxCores) :
    (pool.shouldUseArena page calls answer arenas).2.1.numCores ≤ kArenaMaxCores := by
  unfold Pool.shouldUseArena
  split_ifs
  · exact small
  · exact Pool.init_numCores small
  · exact small

/-- Where the pool is disabled it never gets ready. -/
theorem Pool.init_disabled (disabled : calls.disabled = true) :
    (pool.init page calls arenas).1.initialized = false := by
  unfold Pool.init
  rw [if_pos disabled]

theorem Pool.shouldUseArena_unready {answer : Bool} (unready : pool.initialized = false) :
    (pool.shouldUseArena page calls answer arenas).2.1.initialized = false := by
  unfold Pool.shouldUseArena
  rw [if_pos unready]
  exact unready

end Refresh

section Lookups

variable {pool : Pool} {arenas : Nat → Arena}

/-- For an address in the area of a core, the window of the pool decides whether it is covered. -/
theorem Pool.isArenaAddr_iff {core va : Nat} (cores : pool.numCores ≤ kArenaMaxCores)
    (above : baseAddrOf core ≤ va) (below : va < baseAddrOf core + kArenaCapacityPerCore) :
    pool.isArenaAddr va = true ↔ pool.Covers core := by
  have stop : pool.windowEnd = kSharedArenaBaseAddr + pool.numCores * kArenaCapacityPerCore := by
    unfold Pool.windowEnd
    unfold kArenaMaxCores at cores
    unfold kSharedArenaBaseAddr kArenaCapacityPerCore
    rw [wrap_eq (by omega), wadd_eq (by omega)]
  unfold baseAddrOf at above below
  unfold Pool.isArenaAddr Pool.Covers
  rw [stop, Bool.and_eq_true, Bool.and_eq_true, decide_eq_true_iff, decide_eq_true_iff]
  unfold kArenaCapacityPerCore at above below ⊢
  constructor
  · rintro ⟨⟨initialized, _⟩, inside⟩
    exact ⟨initialized, by omega⟩
  · rintro ⟨initialized, inside⟩
    exact ⟨⟨initialized, by omega⟩, by omega⟩

theorem Pool.getCurrentArena_lt {cpu : Option Nat} {core : Nat}
    (found : pool.getCurrentArena arenas cpu = some core) :
    pool.initialized = true ∧ core < pool.numCores ∧ (arenas core).initialized = true := by
  unfold Pool.getCurrentArena at found
  cases initialized : pool.initialized with
  | false => simp [initialized] at found
  | true =>
    cases cpu with
    | none => simp [initialized] at found
    | some cpu =>
      simp only [initialized, Bool.true_eq_false, if_false] at found
      by_cases outside : pool.numCores ≤ cpu
      · simp [outside] at found
      · by_cases usable : (arenas cpu).initialized = true
        · rw [if_neg outside, if_pos usable] at found
          cases found
          exact ⟨rfl, by omega, usable⟩
        · simp [outside, usable] at found

end Lookups

end Scudo.SharedArena
