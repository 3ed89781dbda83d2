import Scudo.Secondary.Geometry

/-!
Where `deallocate` sends a block, in runs of processes that fork. Which allocator a block came
from is not kept in the block: it is told from its address and the pool of the process, and a
refresh that fails after a fork leaves that pool without the answer.
-/

namespace Scudo.Secondary
open Scudo.SharedArena

def Source.fromArena : Source → Bool
  | .arena _ => true
  | _ => false

/-- A block that a process can free. -/
structure Held where
  /-- The header as it was written when the block was handed out. -/
  block : LargeBlock
  source : Source
  /-- Some process has stored the pages since, and they may have been handed out again. -/
  returned : Bool

structure Process where
  pool : Pool
  arenas : Nat → Arena
  cache : Cache
  live : List Held

/-- The processes, by number. -/
abbrev Family := Nat → Option Process

/-- The header lies in the pages `[base, base + size)` of an arena. -/
def Held.within (base size : Nat) (held : Held) : Bool :=
  held.source.fromArena && decide (base ≤ held.block.headerPos) &&
    decide (held.block.headerPos < base + size)

/-- These pages go back to the arena. -/
def Held.mark (base size : Nat) (held : Held) : Held :=
  { held with returned := held.returned || held.within base size }

namespace Process

def mark (base size : Nat) (proc : Process) : Process :=
  { proc with live := proc.live.map (Held.mark base size) }

/-- After a call of `allocate` in these surroundings. -/
def allocated (proc : Process) (sur : Surroundings) (out : Option Allocation) (cache : Cache)
    (result : Option (Nat × RetrieveResult)) : Process where
  pool := sur.pool
  arenas :=
    match result with
    | none => sur.arenas
    | some (core, result) => Function.update sur.arenas core result.arena
  cache := cache
  live := (out.map fun a => ⟨a.block, a.source, false⟩).toList ++ proc.live

def runInit (p : Platform) (calls : PoolCalls) (proc : Process) : Process :=
  { proc with
    pool := (proc.pool.init p.page calls proc.arenas).1
    arenas := (proc.pool.init p.page calls proc.arenas).2 }

/-- While blocks of an arena are live, a refresh for a new process number succeeds. -/
def RefreshesWell (calls : PoolCalls) (proc : Process) : Prop :=
  (∃ held ∈ proc.live, held.source.fromArena = true) → proc.pool.ownerPid ≠ calls.pid →
    RefreshWorks calls proc.pool proc.arenas

end Process

/-- A call of `deallocate`: of the live block at `place`, by the process `pid`. The header is
read from the memory of the block; in pages that were stored before, anything may stand. -/
structure Deallocation (f : Family) where
  pid : Nat
  proc : Process
  place : Nat
  held : Held
  header : LargeBlock
  cpu : Option Nat
  running : f pid = some proc
  get : proc.live[place]? = some held
  intact : held.returned = false → ∃ bytes, header = Heap.withBytes held.block bytes

namespace Deallocation

variable {f : Family} (d : Deallocation f)

def route : MapAllocator.Route :=
  MapAllocator.route d.proc.pool d.proc.arenas d.pid d.cpu
    (d.proc.cache.canCache d.header.commitSize) d.header

/-- The range is neither cached nor unmapped. -/
def Spares : Prop := d.route ≠ .cache ∧ d.route ≠ .unmap

/-- The objects of the arenas, where `store` runs. -/
def arenasAfter (p : Platform) (env : EnvCache) (mem : Nat → ArenaMemory) (loads : HeadLoads) :
    Option (Nat → Arena) :=
  match d.route with
  | .store owner logCore base size =>
    ((d.proc.arenas owner).store env p.page (some (d.proc.arenas logCore)) (mem owner) loads base
      size).map fun result => Function.update d.proc.arenas logCore result.logArena
  | _ => some d.proc.arenas

def after (arenas : Nat → Arena) (cache : Cache) : Family :=
  let f := Function.update f d.pid (some
    { d.proc with arenas := arenas, cache := cache, live := d.proc.live.eraseIdx d.place })
  match d.route with
  | .store _ _ base size => fun pid => (f pid).map (Process.mark base size)
  | _ => f

end Deallocation

namespace Family

/-- One process, before any call. -/
inductive Initial (config : CacheConfig) : Family → Prop
  | start (pid releaseToOsInterval : Nat) (small : 0 < pid ∧ pid < 2 ^ 31) :
      Initial config (Function.update (fun _ => none) pid
        (some ⟨Pool.unset, fun _ => Arena.unset, Cache.init config releaseToOsInterval, []⟩))

/-- The steps of all processes. `disabled` is the setting that turns arenas off. In a `careful`
run every refresh works for processes that have blocks of an arena. -/
inductive Step (p : Platform) (config : CacheConfig) (disabled careful : Bool) :
    Family → Family → Prop
  | allocate {f : Family} (pid : Nat) (proc : Process) (calls : PoolCalls) (answer : Bool)
      (sur : Surroundings) (req : Request) (out : Option Allocation) (cache : Cache)
      (result : Option (Nat × RetrieveResult)) (running : f pid = some proc)
      (caller : calls.pid = pid ∧ sur.pid = pid ∧ calls.disabled = disabled)
      (asks : (sur.useArena, sur.pool, sur.arenas) =
        proc.pool.shouldUseArena p.page calls answer proc.arenas)
      (sane : sur.Sane p) (valid : req.Valid p)
      (run : MapAllocator.allocate p sur proc.cache req = some (out, cache, result))
      (refreshes : careful = true → proc.RefreshesWell calls) :
      Step p config disabled careful f
        (Function.update f pid (some (proc.allocated sur out cache result)))
  | deallocate {f : Family} (d : Deallocation f) (env : EnvCache) (mem : Nat → ArenaMemory)
      (loads : HeadLoads) (arenas : Nat → Arena) (opts : Options) (now : Nat) (cache : Cache)
      (stores : d.arenasAfter p env mem loads = some arenas)
      (releases : MapAllocator.release p config opts now d.proc.cache d.header d.route =
        some cache) :
      Step p config disabled careful f (d.after arenas cache)
  | fork {f : Family} (parent child : Nat) (proc : Process) (running : f parent = some proc)
      (unused : f child = none) (small : 0 < child ∧ child < 2 ^ 31) :
      Step p config disabled careful f (Function.update f child (some proc))
  | init {f : Family} (pid : Nat) (proc : Process) (calls : PoolCalls)
      (running : f pid = some proc) (caller : calls.pid = pid ∧ calls.disabled = disabled)
      (refreshes : careful = true → proc.RefreshesWell calls) :
      Step p config disabled careful f (Function.update f pid (some (proc.runInit p calls)))

def system (p : Platform) (config : CacheConfig) (disabled careful : Bool) : Lib.System Family :=
  ⟨Initial config, Step p config disabled careful⟩

/-- What holds of every single process, because it does before any call and each operation
that touches a process keeps it. -/
structure Local (p : Platform) (disabled careful : Bool) (inv : Nat → Process → Prop) : Prop where
  starts : ∀ pid cache, 0 < pid ∧ pid < 2 ^ 31 → inv pid ⟨Pool.unset, fun _ => Arena.unset, cache, []⟩
  allocates : ∀ pid proc calls answer sur req out cache result, inv pid proc →
    calls.pid = pid ∧ sur.pid = pid ∧ calls.disabled = disabled →
    (sur.useArena, sur.pool, sur.arenas) =
      proc.pool.shouldUseArena p.page calls answer proc.arenas →
    sur.Sane p → req.Valid p →
    MapAllocator.allocate p sur proc.cache req = some (out, cache, result) →
    (careful = true → proc.RefreshesWell calls) → inv pid (proc.allocated sur out cache result)
  deallocates : ∀ pid proc place arenas cache, inv pid proc →
    inv pid { proc with arenas := arenas, cache := cache, live := proc.live.eraseIdx place }
  marks : ∀ pid proc base size, inv pid proc → inv pid (proc.mark base size)
  forks : ∀ parent child proc, 0 < child ∧ child < 2 ^ 31 → inv parent proc → inv child proc
  inits : ∀ pid proc calls, inv pid proc → calls.pid = pid ∧ calls.disabled = disabled →
    (careful = true → proc.RefreshesWell calls) → inv pid (proc.runInit p calls)

section Local

variable {p : Platform} {config : CacheConfig} {disabled careful : Bool}
  {inv : Nat → Process → Prop} {f f' : Family}

theorem forall_update {pid : Nat} {proc : Process} (all : ∀ q other, f q = some other → inv q other)
    (new : inv pid proc) :
    ∀ q other, Function.update f pid (some proc) q = some other → inv q other := by
  intro q other found
  by_cases same : q = pid
  · subst same
    rw [Function.update_self] at found
    cases found
    exact new
  · rw [Function.update_of_ne same] at found
    exact all q other found

theorem Local.step (rules : Local p disabled careful inv)
    (all : ∀ q other, f q = some other → inv q other) (step : Step p config disabled careful f f') :
    ∀ q other, f' q = some other → inv q other := by
  cases step with
  | allocate pid proc calls answer sur req out cache result running caller asks sane valid run
      refreshes =>
    exact forall_update all (rules.allocates pid proc calls answer sur req out cache result
      (all pid proc running) caller asks sane valid run refreshes)
  | deallocate d env mem loads arenas opts now cache stores releases =>
    have erased := forall_update all (rules.deallocates d.pid d.proc d.place arenas cache
      (all d.pid d.proc d.running))
    intro q other found
    unfold Deallocation.after at found
    cases taken : d.route with
    | store owner logCore base size =>
      rw [taken] at found
      obtain ⟨before, was, rfl⟩ := Option.map_eq_some_iff.mp found
      exact rules.marks q before base size (erased q before was)
    | keep =>
      rw [taken] at found
      exact erased q other found
    | cache =>
      rw [taken] at found
      exact erased q other found
    | unmap =>
      rw [taken] at found
      exact erased q other found
  | fork parent child proc running unused small =>
    exact forall_update all (rules.forks parent child proc small (all parent proc running))
  | init pid proc calls running caller refreshes =>
    exact forall_update all (rules.inits pid proc calls (all pid proc running) caller refreshes)

theorem Local.reachable (rules : Local p disabled careful inv)
    (reached : (system p config disabled careful).Reachable f) :
    ∀ q other, f q = some other → inv q other := by
  apply reached.invariant
  · intro s start
    cases start with
    | start pid releaseToOsInterval small =>
      exact forall_update (fun q other found => nomatch found)
        (rules.starts pid _ small)
  · intro s s' all step
    exact rules.step all step

end Local

end Family

/-- A block of an arena lies in the area of its core. Other blocks name no owner, and no store
marks them. -/
def Held.Sound (held : Held) : Prop :=
  match held.source with
  | .arena core => baseAddrOf core ≤ held.block.memMap.base ∧
      held.block.memMap.base < baseAddrOf core + kArenaCapacityPerCore
  | _ => held.returned = false ∧ held.block.arenaOwnerPid = 0

structure Process.Sound (pid : Nat) (proc : Process) : Prop where
  small : 0 < pid ∧ pid < 2 ^ 31
  cores : proc.pool.numCores ≤ kArenaMaxCores
  live : ∀ held ∈ proc.live, held.Sound

/-- The pool covers the arenas of all live blocks. -/
structure Process.Ready (disabled : Bool) (proc : Process) : Prop where
  enabled : disabled = true → proc.pool.initialized = false
  covers : ∀ held ∈ proc.live, ∀ core, held.source = .arena core → proc.pool.Covers core

section Sound
open MapAllocator

variable {p : Platform} {disabled careful : Bool} {sur : Surroundings} {req : Request}
  {cache cache' : Cache} {a : Allocation} {result : Option (Nat × RetrieveResult)}

theorem Held.Sound.mark {held : Held} (sound : held.Sound) (base size : Nat) :
    (held.mark base size).Sound := by
  unfold Held.Sound Held.mark Held.within at *
  cases source : held.source with
  | arena core => simpa [source] using sound
  | cache => simpa [source, Source.fromArena] using sound
  | map => simpa [source, Source.fromArena] using sound

/-- The arena that serves a request is one that the pool covers. -/
theorem tryAllocateFromArena_covers {out : Option Allocation} {core : Nat}
    {retrieved : RetrieveResult}
    (run : tryAllocateFromArena p sur req = some (out, some (core, retrieved))) :
    sur.pool.Covers core := by
  obtain ⟨_, unasked⟩ | ⟨_, _, current, _, _, asked⟩ := tryAllocateFromArena_cases run
  · cases unasked
  · cases asked
    obtain ⟨initialized, below, _⟩ := Pool.getCurrentArena_lt current
    exact ⟨initialized, below⟩

theorem allocate_held (sane : sur.Sane p) (valid : req.Valid p)
    (run : allocate p sur cache req = some (some a, cache', result)) :
    Held.Sound ⟨a.block, a.source, false⟩ ∧
      ∀ core, a.source = .arena core → sur.pool.Covers core := by
  have adjusted := adjust_adjusted valid
  cases allocate_path run with
  | arena core out retrieved served uses small tried =>
    have sound := tryAllocateFromArena_sound adjusted sane small (sane.word uses) tried
    obtain ⟨_, above, below⟩ := sound.guards
    have header := sound.fits.header
    have user := sound.fits.user
    have headers := p.word.getHeadersSize_pos
    constructor
    · have base : (arenaAllocation p sur (adjust p req) core out).block.memMap.base =
          (arenaAllocation p sur (adjust p req) core out).block.commitBase := rfl
      change baseAddrOf core ≤ _ ∧ _ < baseAddrOf core + kArenaCapacityPerCore
      rw [base]
      unfold dataBaseOf at above
      exact ⟨by omega, by omega⟩
    · intro core' same
      cases same
      exact tryAllocateFromArena_covers tried
  | own a notServed path =>
    cases path with
    | cache maxPages headerPos entry found retrieved =>
      exact ⟨⟨rfl, rfl⟩, fun core same => nomatch same⟩
    | map mapBase notFound maps => exact ⟨⟨rfl, rfl⟩, fun core same => nomatch same⟩

/-- A new block is at most one more. -/
theorem Process.mem_allocated {proc : Process} {out : Option Allocation} {held : Held}
    (member : held ∈ (proc.allocated sur out cache' result).live) :
    (∃ a, out = some a ∧ held = ⟨a.block, a.source, false⟩) ∨ held ∈ proc.live := by
  cases out with
  | none => exact Or.inr member
  | some a =>
    rcases List.mem_cons.mp member with new | old
    · exact Or.inl ⟨a, rfl, new⟩
    · exact Or.inr old

/-- The pool after a call of `allocate` is the one that `shouldUseArena` left. -/
theorem allocated_pool {proc : Process} {calls : PoolCalls} {answer : Bool}
    (asks : (sur.useArena, sur.pool, sur.arenas) =
      proc.pool.shouldUseArena p.page calls answer proc.arenas) :
    sur.pool = (proc.pool.shouldUseArena p.page calls answer proc.arenas).2.1 :=
  congrArg (fun answered => answered.2.1) asks

theorem sound_local : Family.Local p disabled careful Process.Sound where
  starts := fun pid cache small =>
    ⟨small, Nat.zero_le _, fun held member => absurd member List.not_mem_nil⟩
  allocates := by
    intro pid proc calls answer sur req out cache result sound caller asks sane valid run refreshes
    refine ⟨sound.small, ?_, ?_⟩
    · change sur.pool.numCores ≤ kArenaMaxCores
      rw [allocated_pool asks]
      exact Pool.shouldUseArena_numCores sound.cores
    · intro held member
      rcases Process.mem_allocated member with ⟨a, rfl, rfl⟩ | old
      · exact (allocate_held sane valid run).1
      · exact sound.live held old
  deallocates := fun pid proc place arenas cache sound =>
    ⟨sound.small, sound.cores, fun held member =>
      sound.live held ((List.eraseIdx_sublist _ _).subset member)⟩
  marks := by
    intro pid proc base size sound
    refine ⟨sound.small, sound.cores, ?_⟩
    intro held member
    obtain ⟨before, was, rfl⟩ := List.mem_map.mp member
    exact (sound.live before was).mark base size
  forks := fun parent child proc small sound => ⟨small, sound.cores, sound.live⟩
  inits := fun pid proc calls sound caller refreshes =>
    ⟨sound.small, Pool.init_numCores sound.cores, sound.live⟩

/-- What a careful refresh needs is there for every block of an arena. -/
theorem Process.Ready.refreshes {proc : Process} {calls : PoolCalls} (ready : proc.Ready disabled)
    (same : calls.disabled = disabled) (well : proc.RefreshesWell calls) {held : Held}
    (member : held ∈ proc.live) {core : Nat} (source : held.source = .arena core) :
    calls.disabled = false ∧
      (proc.pool.ownerPid ≠ calls.pid → RefreshWorks calls proc.pool proc.arenas) := by
  constructor
  · cases setting : calls.disabled with
    | false => rfl
    | true =>
      have initialized := (ready.covers held member core source).1
      rw [ready.enabled (same ▸ setting)] at initialized
      cases initialized
  · exact well ⟨held, member, by rw [source]; rfl⟩

theorem ready_local : Family.Local p disabled true fun _ proc => proc.Ready disabled where
  starts := fun pid cache small =>
    ⟨fun _ => rfl, fun held member => absurd member List.not_mem_nil⟩
  allocates := by
    intro pid proc calls answer sur req out cache result ready caller asks sane valid run refreshes
    constructor
    · intro setting
      change sur.pool.initialized = false
      rw [allocated_pool asks]
      exact Pool.shouldUseArena_unready (ready.enabled setting)
    · intro held member core source
      rcases Process.mem_allocated member with ⟨a, rfl, rfl⟩ | old
      · exact (allocate_held sane valid run).2 core source
      · obtain ⟨enabled, works⟩ := ready.refreshes caller.2.2 (refreshes rfl) old source
        change sur.pool.Covers core
        rw [allocated_pool asks]
        exact Pool.shouldUseArena_covers (ready.covers held old core source) enabled works
  deallocates := fun pid proc place arenas cache ready =>
    ⟨ready.enabled, fun held member =>
      ready.covers held ((List.eraseIdx_sublist _ _).subset member)⟩
  marks := by
    intro pid proc base size ready
    refine ⟨ready.enabled, ?_⟩
    intro held member core source
    obtain ⟨before, was, rfl⟩ := List.mem_map.mp member
    exact ready.covers before was core source
  forks := fun parent child proc small ready => ready
  inits := by
    intro pid proc calls ready caller refreshes
    constructor
    · intro setting
      exact Pool.init_disabled (caller.2.trans setting)
    · intro held member core source
      obtain ⟨enabled, works⟩ := ready.refreshes caller.2 (refreshes rfl) member source
      exact Pool.init_covers (ready.covers held member core source) enabled works

end Sound

section Routes

variable {f : Family} (d : Deallocation f)

/-- The address in the header alone decides between an arena and the other two. -/
theorem Deallocation.spares_iff :
    d.Spares ↔ d.proc.pool.isArenaAddr d.header.memMap.base = true := by
  unfold Deallocation.Spares Deallocation.route MapAllocator.route Pool.isReady
  dsimp only
  by_cases inside : d.proc.pool.isArenaAddr d.header.memMap.base = true
  · have ready : d.proc.pool.initialized = true := by
      unfold Pool.isArenaAddr at inside
      simp only [Bool.and_eq_true] at inside
      exact inside.1.1
    rw [if_pos ⟨ready, inside⟩]
    refine iff_of_true ?_ inside
    split
    · simp
    · split_ifs <;> simp
  · rw [if_neg (fun both => inside both.2)]
    refine iff_of_false ?_ inside
    split_ifs <;> simp

/-- A header that names no owner is that of no block to store. -/
theorem Deallocation.no_store (small : 0 < d.pid ∧ d.pid < 2 ^ 31)
    (unowned : d.header.arenaOwnerPid = 0) (owner logCore base size : Nat) :
    d.route ≠ .store owner logCore base size := by
  have different : d.header.arenaOwnerPid ≠ wrap 32 d.pid := by
    rw [wrap_eq (by omega)]
    omega
  unfold Deallocation.route MapAllocator.route
  simp only [if_pos different]
  split_ifs
  · split <;> simp
  · simp
  · simp

/-- A call of `deallocate` for a block that a process holds. -/
def Deallocation.of {pid place : Nat} {proc : Process} {held : Held} (running : f pid = some proc)
    (get : proc.live[place]? = some held) (header : LargeBlock)
    (intact : held.returned = false → ∃ bytes, header = Heap.withBytes held.block bytes) :
    Deallocation f :=
  ⟨pid, proc, place, held, header, none, running, get, intact⟩

/-- All calls of `deallocate` for one block of an arena spare it, exactly when its pages were not
stored before and the pool covers its core. -/
theorem spares_iff_covers {p : Platform} {config : CacheConfig} {disabled careful : Bool}
    (reached : (Family.system p config disabled careful).Reachable f) {pid place core : Nat}
    {proc : Process} {held : Held} (running : f pid = some proc)
    (get : proc.live[place]? = some held) (source : held.source = .arena core) :
    (∀ d : Deallocation f, d.pid = pid → d.place = place → d.Spares) ↔
      held.returned = false ∧ proc.pool.Covers core := by
  have sound := sound_local.reachable reached pid proc running
  have area := sound.live held (List.mem_of_getElem? get)
  unfold Held.Sound at area
  rw [source] at area
  have covers : proc.pool.isArenaAddr held.block.memMap.base = true ↔ proc.pool.Covers core :=
    Pool.isArenaAddr_iff sound.cores area.1 area.2
  constructor
  · intro all
    cases returned : held.returned with
    | true =>
      let header : LargeBlock := { held.block with memMap := ⟨0, 0, fun _ => 0⟩ }
      have spared := all (Deallocation.of running get header (by simp [returned])) rfl rfl
      have inside : proc.pool.isArenaAddr 0 = true := (Deallocation.spares_iff _).mp spared
      unfold Pool.isArenaAddr kSharedArenaBaseAddr at inside
      simp at inside
    | false =>
      have spared := all (Deallocation.of running get held.block
        (fun _ => ⟨held.block.memMap.bytes, rfl⟩)) rfl rfl
      exact ⟨rfl, covers.mp ((Deallocation.spares_iff _).mp spared)⟩
  · rintro ⟨kept, covered⟩ ⟨pid', proc', place', held', header, cpu, running', get', intact⟩ samePid
      samePlace
    dsimp only at samePid samePlace
    subst samePid samePlace
    rw [running] at running'
    cases running'
    rw [get] at get'
    cases get'
    obtain ⟨bytes, rfl⟩ := intact kept
    exact (Deallocation.spares_iff _).mpr (covers.mpr covered)

end Routes

/-- In every run a block of the cache or of `mmap` never goes to an arena, and a block of an arena
is sure to be spared by `deallocate` if and only if its pages were not stored before and the pool
covers its core; where every refresh works, the pool always does. -/
theorem large_block_routing {p : Platform} {config : CacheConfig} {disabled careful : Bool}
    {f : Family} (reached : (Family.system p config disabled careful).Reachable f) :
    (∀ d : Deallocation f, d.held.source.fromArena = false →
      ∀ owner logCore base size, d.route ≠ .store owner logCore base size) ∧
    (∀ pid proc place held core, f pid = some proc → proc.live[place]? = some held →
      held.source = .arena core →
        ((∀ d : Deallocation f, d.pid = pid → d.place = place → d.Spares) ↔
          held.returned = false ∧ proc.pool.Covers core)) ∧
    (careful = true → ∀ d : Deallocation f, d.held.source.fromArena = true →
      d.held.returned = false → d.Spares) := by
  refine ⟨?_, ?_, ?_⟩
  · intro d others
    have sound := sound_local.reachable reached d.pid d.proc d.running
    have own := sound.live d.held (List.mem_of_getElem? d.get)
    have unowned : d.held.returned = false ∧ d.held.block.arenaOwnerPid = 0 := by
      unfold Held.Sound at own
      cases source : d.held.source with
      | arena core => simp [source, Source.fromArena] at others
      | cache => simpa [source] using own
      | map => simpa [source] using own
    obtain ⟨bytes, same⟩ := d.intact unowned.1
    have name : d.header.arenaOwnerPid = 0 := by
      rw [same]
      exact unowned.2
    exact d.no_store sound.small name
  · intro pid proc place held core running get source
    exact spares_iff_covers reached running get source
  · intro runs d fromArena kept
    subst runs
    have ready := ready_local.reachable reached d.pid d.proc d.running
    cases source : d.held.source with
    | arena core =>
      have covers := ready.covers d.held (List.mem_of_getElem? d.get) core source
      exact (spares_iff_covers reached d.running d.get source).mpr ⟨kept, covers⟩ d rfl rfl
    | cache => simp [source, Source.fromArena] at fromArena
    | map => simp [source, Source.fromArena] at fromArena

/-- One core, whose arena is mapped; `remap` tells whether it can be mapped again. -/
def oneCore (pid : Nat) (remap : Bool) : PoolCalls where
  pid := pid
  disabled := false
  numberOfCPUs := 1
  init := fun _ => ⟨true, true, true, true⟩
  refresh := fun _ => ⟨true, remap, true, true⟩

/-- A process that has mapped the arena of one core. -/
def mappedProcess : Process :=
  Process.runInit Platform.linux64 (oneCore 1 true)
    ⟨Pool.unset, fun _ => Arena.unset, Cache.init noEntries 0, []⟩

def mappedSurroundings : Surroundings :=
  { quietSurroundings Platform.linux64 with
    pool := mappedProcess.pool
    cpu := some 0
    useArena := true
    arenas := mappedProcess.arenas }

theorem mapped_placed (core : Nat) : (mappedProcess.arenas core).Placed core := by
  intro initialized
  cases core with
  | zero => exact ⟨by decide, rfl, rfl⟩
  | succ core =>
    have untouched : mappedProcess.arenas (core + 1) = Arena.unset := rfl
    rw [untouched] at initialized
    cases initialized

theorem mappedSurroundings_sane : mappedSurroundings.Sane Platform.linux64 where
  placed := mapped_placed
  shared := fun _ => ⟨fun _ => ⟨false, false⟩,
    { World.fresh with object := fun _ => mappedProcess.arenas }, 0,
    Lib.System.Reachable.init ⟨World.fresh_initial.hdr, fun _ => mapped_placed,
      World.fresh_initial.held, World.fresh_initial.log⟩, fun _ => ⟨rfl, rfl⟩⟩
  word := fun _ => rfl
  mmap := (quietSurroundings_sane Platform.linux64).mmap


/-- 256 KB. -/
def largeRequest : Request := ⟨⟨false, false⟩, 2 ^ 18, 16, .noFill⟩

/-- A child with a live block of an arena, after its refresh. -/
theorem forked_child (careful remap : Bool) (works : careful = true → remap = true) :
    ∃ f proc held, (Family.system Platform.linux64 noEntries false careful).Reachable f ∧
      f 2 = some proc ∧ proc.live[0]? = some held ∧ held.source = .arena 0 ∧
      held.returned = false ∧ proc.pool.initialized = remap := by
  obtain ⟨a, cache, result, run, source, base, refresh⟩ : ∃ a cache result,
      MapAllocator.allocate Platform.linux64 mappedSurroundings mappedProcess.cache largeRequest =
        some (some a, cache, result) ∧ a.source = .arena 0 ∧
      ((mappedProcess.allocated mappedSurroundings (some a) cache result).arenas 0).baseAddr =
        kSharedArenaBaseAddr ∧
      ∀ remap, ((mappedProcess.allocated mappedSurroundings (some a) cache result).runInit
        Platform.linux64 (oneCore 2 remap)).pool.initialized = remap := by
    refine ⟨_, _, _, rfl, rfl, rfl, ?_⟩
    intro remap
    cases remap <;> rfl
  have started : (Family.system Platform.linux64 noEntries false careful).Reachable _ :=
    Lib.System.Reachable.init (Family.Initial.start 1 0 (by decide))
  have mapped := started.step (Family.Step.init 1 _ (oneCore 1 true) (Function.update_self _ _ _)
    ⟨rfl, rfl⟩ (fun _ uses => absurd uses (by simp)))
  have served := mapped.step (Family.Step.allocate 1 mappedProcess (oneCore 1 true) true
    mappedSurroundings largeRequest (some a) cache result (Function.update_self _ _ _)
    ⟨rfl, rfl, rfl⟩ rfl mappedSurroundings_sane ⟨by decide, by decide, by decide⟩ run
    (fun _ uses => absurd uses (by simp [mappedProcess, Process.runInit])))
  have forked := served.step (Family.Step.fork 1 2 _ (Function.update_self _ _ _) rfl (by decide))
  have refreshes : careful = true → Process.RefreshesWell (oneCore 2 remap)
      (mappedProcess.allocated mappedSurroundings (some a) cache result) := by
    intro runs _ _ core below initialized
    have first : core = 0 := Nat.lt_one_iff.mp below
    subst first
    constructor
    · rw [base]
      decide
    · rw [works runs]
      rfl
  have refreshed := forked.step (Family.Step.init 2 _ (oneCore 2 remap) (Function.update_self _ _ _)
    ⟨rfl, rfl⟩ refreshes)
  exact ⟨_, _, ⟨a.block, a.source, false⟩, refreshed, Function.update_self _ _ _, rfl, source, rfl,
    refresh remap⟩

/-- After a refresh that works the child keeps the block. -/
theorem large_block_routing_refreshed :
    ∃ f, (Family.system Platform.linux64 noEntries false true).Reachable f ∧
      ∃ d : Deallocation f, d.held.source = .arena 0 ∧ d.Spares := by
  obtain ⟨f, proc, held, reached, running, get, source, kept, _⟩ := forked_child true true id
  have spares := (large_block_routing reached).2.2 rfl
    (Deallocation.of running get held.block (fun _ => ⟨held.block.memMap.bytes, rfl⟩))
    (by change held.source.fromArena = true; rw [source]; rfl) kept
  exact ⟨f, reached, _, source, spares⟩

/-- After a refresh whose `mmap` fails the child caches or unmaps pages of the arena. -/
theorem arena_block_not_spared :
    ∃ f, (Family.system Platform.linux64 noEntries false false).Reachable f ∧
      ∃ d : Deallocation f, d.held.source = .arena 0 ∧ d.held.returned = false ∧ ¬d.Spares := by
  obtain ⟨f, proc, held, reached, running, get, source, kept, unready⟩ :=
    forked_child false false (fun runs => runs)
  let d := Deallocation.of running get held.block (fun _ => ⟨held.block.memMap.bytes, rfl⟩)
  refine ⟨f, reached, d, source, kept, ?_⟩
  rw [d.spares_iff]
  change ¬(proc.pool.initialized && _ && _) = true
  rw [unready]
  simp

end Scudo.Secondary
