import Mathlib.Algebra.BigOperators.Group.List.Basic
import Mathlib.Data.BitVec
import Mathlib.Data.List.Perm.Basic
import Scudo.Secondary.Geometry

/-!
The counters of the secondary over whole runs. The threads of one process share them: a block
is taken from an arena, the cache or a new mapping, and enters the list of blocks in use
together with the counters in a later step, and so it is when it leaves.
-/

namespace Scudo.Secondary
open Scudo.SharedArena

section Sums

variable {α β : Type*} [AddCommGroup β] (f : α → β) {xs : List α}

theorem sum_map_concat (x : α) : ((xs ++ [x]).map f).sum = (xs.map f).sum + f x := by simp

theorem sum_map_eraseIdx {place : Nat} {x : α} (get : xs[place]? = some x) :
    ((xs.eraseIdx place).map f).sum = (xs.map f).sum - f x := by
  obtain ⟨inside, rfl⟩ := List.getElem?_eq_some_iff.mp get
  have perm := (List.getElem_cons_eraseIdx_perm inside).map f
  have total := perm.sum_eq
  rw [List.map_cons, List.sum_cons] at total
  rw [← total, add_sub_cancel_left]

theorem sum_map_set {place : Nat} {x y : α} (get : xs[place]? = some x) (same : f y = f x) :
    ((xs.set place y).map f).sum = (xs.map f).sum := by
  obtain ⟨inside, rfl⟩ := List.getElem?_eq_some_iff.mp get
  rw [List.map_set, same, ← List.getElem_map f (h := by simpa using inside), List.set_getElem_self]

end Sums

/-- The counters of a `MapAllocator`, and those of its `Stats` that it moves. A word has `w`
bits. -/
structure Accounts (w : Nat) where
  allocatedBytes : BitVec w
  freedBytes : BitVec w
  fragmentedBytes : BitVec w
  largestSize : Nat
  numberOfAllocs : UInt32
  numberOfFrees : UInt32
  statAllocated : BitVec w
  statMapped : BitVec w

namespace Accounts

variable {w : Nat}

def zero (w : Nat) : Accounts w := ⟨0, 0, 0, 0, 0, 0, 0, 0⟩

def commitWord (w : Nat) (block : LargeBlock) : BitVec w := BitVec.ofNat w block.commitSize

def capacityWord (w : Nat) (block : LargeBlock) : BitVec w := BitVec.ofNat w block.memMap.capacity

/-- The updates that every path makes when its block enters the list. -/
def enter (accounts : Accounts w) (block : LargeBlock) : Accounts w :=
  { accounts with
    allocatedBytes := accounts.allocatedBytes + commitWord w block
    numberOfAllocs := accounts.numberOfAllocs + 1
    statAllocated := accounts.statAllocated + commitWord w block
    statMapped := accounts.statMapped + capacityWord w block }

def fragment (accounts : Accounts w) (block : LargeBlock) : Accounts w :=
  { accounts with
    fragmentedBytes := accounts.fragmentedBytes + (capacityWord w block - commitWord w block) }

def raise (accounts : Accounts w) (block : LargeBlock) : Accounts w :=
  { accounts with
    largestSize := if accounts.largestSize < block.commitSize then block.commitSize
      else accounts.largestSize }

/-- The end of `tryAllocateFromCache`, of `tryAllocateFromArena` and of `allocate`. -/
def enlist (accounts : Accounts w) (block : LargeBlock) : Source → Accounts w
  | .cache => (accounts.enter block).fragment block
  | .arena _ => (accounts.enter block).raise block
  | .map => ((accounts.enter block).fragment block).raise block

/-- The start of `deallocate`. -/
def delist (accounts : Accounts w) (block : LargeBlock) : Accounts w :=
  { accounts with
    freedBytes := accounts.freedBytes + commitWord w block
    fragmentedBytes := accounts.fragmentedBytes - (capacityWord w block - commitWord w block)
    numberOfFrees := accounts.numberOfFrees + 1
    statAllocated := accounts.statAllocated - commitWord w block
    statMapped := accounts.statMapped - capacityWord w block }

/-- The counters tell the sums over the blocks in use, modulo their width. -/
structure Balanced (accounts : Accounts w) (inUse : List LargeBlock) : Prop where
  number : accounts.numberOfAllocs - accounts.numberOfFrees = UInt32.ofNat inUse.length
  bytes : accounts.allocatedBytes - accounts.freedBytes = (inUse.map (commitWord w)).sum
  allocated : accounts.statAllocated = (inUse.map (commitWord w)).sum
  mapped : accounts.statMapped = (inUse.map (capacityWord w)).sum
  fragmented : accounts.fragmentedBytes =
    (inUse.map fun block => capacityWord w block - commitWord w block).sum

/-- The arena path skips one counter, but its blocks fill their mappings. -/
theorem Balanced.enlist {accounts : Accounts w} {inUse : List LargeBlock}
    (balanced : accounts.Balanced inUse) (block : LargeBlock) (source : Source)
    (whole : ∀ core, source = .arena core → block.memMap.capacity = block.commitSize) :
    (accounts.enlist block source).Balanced (inUse ++ [block]) := by
  have entered : ∀ fragmented largest, fragmented = accounts.fragmentedBytes +
      (capacityWord w block - commitWord w block) →
      ({ accounts.enter block with
          fragmentedBytes := fragmented, largestSize := largest } : Accounts w).Balanced
        (inUse ++ [block]) := by
    intro fragmented largest moved
    apply Balanced.mk
    · change accounts.numberOfAllocs + 1 - accounts.numberOfFrees = _
      rw [List.length_append, List.length_singleton, UInt32.ofNat_add, ← balanced.number]
      grind
    · rw [sum_map_concat, ← balanced.bytes]
      exact add_sub_right_comm _ _ _
    · rw [sum_map_concat, ← balanced.allocated]
      rfl
    · rw [sum_map_concat, ← balanced.mapped]
      rfl
    · rw [sum_map_concat, ← balanced.fragmented]
      exact moved
  cases source with
  | cache => exact entered _ _ rfl
  | map => exact entered _ _ rfl
  | arena core =>
    apply entered
    change accounts.fragmentedBytes = _
    unfold capacityWord commitWord
    rw [whole core rfl, sub_self, add_zero]

theorem Balanced.delist {accounts : Accounts w} {inUse : List LargeBlock}
    (balanced : accounts.Balanced inUse) {place : Nat} {block : LargeBlock}
    (get : inUse[place]? = some block) :
    (accounts.delist block).Balanced (inUse.eraseIdx place) := by
  apply Balanced.mk
  · obtain ⟨inside, _⟩ := List.getElem?_eq_some_iff.mp get
    have length : inUse.length = (inUse.eraseIdx place).length + 1 := by
      rw [List.length_eraseIdx_of_lt inside]
      omega
    have number := balanced.number
    rw [length, UInt32.ofNat_add] at number
    change accounts.numberOfAllocs - (accounts.numberOfFrees + 1) = _
    grind
  · rw [sum_map_eraseIdx _ get, ← balanced.bytes]
    exact (sub_sub _ _ _).symm
  · rw [sum_map_eraseIdx _ get, ← balanced.allocated]
    rfl
  · rw [sum_map_eraseIdx _ get, ← balanced.mapped]
    rfl
  · rw [sum_map_eraseIdx _ get, ← balanced.fragmented]
    rfl

/-- A write to the bytes of a block moves no counter. -/
theorem Balanced.write {accounts : Accounts w} {inUse : List LargeBlock}
    (balanced : accounts.Balanced inUse) {place : Nat} {block : LargeBlock}
    (get : inUse[place]? = some block) (bytes : Nat → UInt8) :
    accounts.Balanced (inUse.set place (Heap.withBytes block bytes)) := by
  apply Balanced.mk
  · rw [List.length_set]
    exact balanced.number
  · rw [sum_map_set _ get (by rfl)]
    exact balanced.bytes
  · rw [sum_map_set _ get (by rfl)]
    exact balanced.allocated
  · rw [sum_map_set _ get (by rfl)]
    exact balanced.mapped
  · rw [sum_map_set _ get (by rfl)]
    exact balanced.fragmented

end Accounts

/-- One process between two steps of its threads. -/
structure Books (p : Platform) where
  heap : Heap
  accounts : Accounts p.word.bits
  /-- Blocks that a call of `allocate` has obtained and not listed yet. -/
  obtained : List Allocation
  /-- Blocks that a call of `deallocate` has taken off the list and not released yet. -/
  removed : List LargeBlock
  /-- The sizes of all blocks that have been listed, the latest one first. -/
  handedOut : List Nat

namespace Books
open MapAllocator

variable {p : Platform} {config : CacheConfig}

inductive Step (p : Platform) (config : CacheConfig) : Books p → Books p → Prop
  | obtain {s : Books p} (sur : Surroundings) (req : Request) (a : Option Allocation)
      (cache' : Cache) (result : Option (Nat × RetrieveResult))
      (run : allocate p sur s.heap.cache req = some (a, cache', result)) :
      Step p config s { s with
        heap := ⟨cache', s.heap.inUse⟩, obtained := s.obtained ++ a.toList }
  | enlist {s : Books p} (place : Nat) (a : Allocation) (get : s.obtained[place]? = some a) :
      Step p config s { s with
        heap := ⟨s.heap.cache, s.heap.inUse ++ [a.block]⟩
        accounts := s.accounts.enlist a.block a.source
        obtained := s.obtained.eraseIdx place
        handedOut := a.block.commitSize :: s.handedOut }
  | write {s : Books p} (place : Nat) (block : LargeBlock) (bytes : Nat → UInt8)
      (get : s.heap.inUse[place]? = some block) :
      Step p config s { s with
        heap := ⟨s.heap.cache, s.heap.inUse.set place (Heap.withBytes block bytes)⟩ }
  | delist {s : Books p} (place : Nat) (block : LargeBlock)
      (get : s.heap.inUse[place]? = some block) :
      Step p config s { s with
        heap := ⟨s.heap.cache, s.heap.inUse.eraseIdx place⟩
        accounts := s.accounts.delist block
        removed := s.removed ++ [block] }
  | release {s : Books p} (place : Nat) (block : LargeBlock) (pool : Pool) (arenas : Nat → Arena)
      (pid : Nat) (cpu : Option Nat) (opts : Options) (now : Nat) (cache' : Cache)
      (get : s.removed[place]? = some block)
      (run : MapAllocator.release p config opts now s.heap.cache block
        (route pool arenas pid cpu (s.heap.cache.canCache block.commitSize) block) = some cache') :
      Step p config s { s with
        heap := ⟨cache', s.heap.inUse⟩, removed := s.removed.eraseIdx place }
  | setOption {s : Books p} (o : CacheOption) (value : Int) :
      Step p config s { s with
        heap := ⟨(s.heap.cache.setOption config p o value).2, s.heap.inUse⟩ }
  | releaseToOS {s : Books p} :
      Step p config s { s with heap := ⟨s.heap.cache.releaseToOS, s.heap.inUse⟩ }
  | disableMemoryTagging {s : Books p} :
      Step p config s { s with heap := ⟨s.heap.cache.disableMemoryTagging.1, s.heap.inUse⟩ }

/-- After `init`. -/
def Initial (config : CacheConfig) (s : Books p) : Prop :=
  Heap.Initial config s.heap ∧ s.accounts = Accounts.zero _ ∧ s.obtained = [] ∧ s.removed = [] ∧
    s.handedOut = []

def system (p : Platform) (config : CacheConfig) : Lib.System (Books p) :=
  ⟨Initial config, Step p config⟩

/-- A bound for the sizes of cached blocks. -/
def CacheBelow (bound : Nat) : Cache → Prop :=
  Cache.Each (fun entry => entry.commitSize ≤ bound) fun entry => entry.commitSize ≤ bound

theorem below_stable (bound : Nat) :
    Cache.Stable (fun entry => entry.commitSize ≤ bound) fun entry => entry.commitSize ≤ bound := by
  have release : ∀ (entry : CachedBlock) (time oldestTime : Nat), entry.commitSize ≤ bound →
      (entry.releaseIfOlderThan time oldestTime).1.commitSize ≤ bound := by
    intro entry time oldestTime below
    unfold CachedBlock.releaseIfOlderThan
    split_ifs <;> exact below
  exact ⟨release, release, fun _ below => below, fun _ _ below => below⟩

theorem CacheBelow.mono {bound bound' : Nat} {cache : Cache} (below : CacheBelow bound cache)
    (le : bound ≤ bound') : CacheBelow bound' cache :=
  ⟨fun entry member => (below.entries entry member).trans le,
    fun entry member => (below.quarantine entry member).trans le⟩

theorem init_below (bound : Nat) (config : CacheConfig) (releaseToOsInterval : Int) :
    CacheBelow bound (Cache.init config releaseToOsInterval) := by
  constructor
  · intro entry member
    exact absurd member List.not_mem_nil
  · intro entry member
    rw [List.eq_of_mem_replicate member]
    exact Nat.zero_le bound

theorem CacheBelow.disableMemoryTagging {bound : Nat} {cache : Cache}
    (below : CacheBelow bound cache) : CacheBelow bound cache.disableMemoryTagging.1 := by
  refine ⟨below.entries, ?_⟩
  intro entry member
  obtain ⟨old, inOld, rfl⟩ := List.mem_map.mp member
  have le := below.quarantine old inOld
  split_ifs <;> exact le

theorem CacheBelow.release {bound : Nat} {cache cache' : Cache} (below : CacheBelow bound cache)
    {opts : Options} {now : Nat} {block : LargeBlock} (le : block.commitSize ≤ bound)
    {route : Route} (run : MapAllocator.release p config opts now cache block route = some cache') :
    CacheBelow bound cache' := by
  cases route with
  | cache =>
    unfold MapAllocator.release at run
    dsimp only at run
    split at run
    · cases run
    · next stored =>
      cases run
      apply Cache.Each.store (below_stable bound) below _ stored
      intro interval
      unfold Cache.storedEntry
      split_ifs <;> exact le
  | keep =>
    cases run
    exact below
  | store =>
    cases run
    exact below
  | unmap =>
    cases run
    exact below

/-- A block from the cache is no larger than its entry was, and one from an arena fills its
mapping. -/
theorem obtained_cases {sur : Surroundings} {req : Request} {cache cache' : Cache}
    {a : Allocation} {result : Option (Nat × RetrieveResult)}
    (run : allocate p sur cache req = some (some a, cache', result)) {bound : Nat}
    (below : CacheBelow bound cache) :
    (a.source = .cache → a.block.commitSize ≤ bound) ∧
      ∀ core, a.source = .arena core → a.block.memMap.capacity = a.block.commitSize := by
  cases allocate_path run with
  | arena core h retrieved served uses small tried =>
    exact ⟨nofun, fun _ _ => rfl⟩
  | own a notServed path =>
    cases path with
    | cache maxPages headerPos entry found retrieved =>
      obtain ⟨kept, member, released, _⟩ := retrieved.from_entry
      obtain ⟨_, size, _⟩ := CachedBlock.releaseFragment_fields p kept headerPos
      refine ⟨fun _ => ?_, nofun⟩
      change entry.commitSize ≤ bound
      rw [released, size]
      exact below.entries kept member
    | map mapBase notFound maps =>
      exact ⟨nofun, nofun⟩

/-- The counters are right, and whatever may come back through the cache is not larger than
`largestSize`. -/
structure Sound (s : Books p) : Prop where
  balanced : s.accounts.Balanced s.heap.inUse
  largest : s.accounts.largestSize = s.handedOut.foldr max 0
  cache : CacheBelow s.accounts.largestSize s.heap.cache
  inUse : ∀ block ∈ s.heap.inUse, block.commitSize ≤ s.accounts.largestSize
  removed : ∀ block ∈ s.removed, block.commitSize ≤ s.accounts.largestSize
  fromCache : ∀ a ∈ s.obtained, a.source = .cache →
    a.block.commitSize ≤ s.accounts.largestSize
  fromArena : ∀ a ∈ s.obtained, ∀ core, a.source = .arena core →
    a.block.memMap.capacity = a.block.commitSize

/-- Every path raises the largest size to that of its block; the cache path has nothing to do. -/
theorem enlist_largestSize {w : Nat} (accounts : Accounts w) (block : LargeBlock) (source : Source)
    (known : source = .cache → block.commitSize ≤ accounts.largestSize) :
    (accounts.enlist block source).largestSize = max block.commitSize accounts.largestSize := by
  have raised : (if accounts.largestSize < block.commitSize then block.commitSize
      else accounts.largestSize) = max block.commitSize accounts.largestSize := by
    split_ifs <;> omega
  cases source with
  | cache => exact (max_eq_right (known rfl)).symm
  | arena core => exact raised
  | map => exact raised

theorem Step.sound {s s' : Books p} (step : Step p config s s') (sound : Sound s) : Sound s' := by
  cases step with
  | obtain sur req a cache' result run =>
    have cache := sound.cache.of_shrinks (allocate_shrinks run)
    have new : ∀ b ∈ s.obtained ++ a.toList, b ∈ s.obtained ∨ a = some b := by
      intro b member
      simpa using member
    refine { sound with cache := cache, fromCache := ?_, fromArena := ?_ }
    · intro b member
      rcases new b member with old | rfl
      · exact sound.fromCache b old
      · exact (obtained_cases run sound.cache).1
    · intro b member
      rcases new b member with old | rfl
      · exact sound.fromArena b old
      · exact (obtained_cases run sound.cache).2
  | enlist place a get =>
    have member := List.mem_of_getElem? get
    have largest := enlist_largestSize s.accounts a.block a.source (sound.fromCache a member)
    have grows : s.accounts.largestSize ≤ (s.accounts.enlist a.block a.source).largestSize := by
      rw [largest]
      exact le_max_right _ _
    have kept : ∀ b ∈ s.obtained.eraseIdx place, b ∈ s.obtained :=
      fun b inRest => (List.eraseIdx_sublist _ _).subset inRest
    apply Sound.mk
    · exact sound.balanced.enlist a.block a.source (sound.fromArena a member)
    · change (s.accounts.enlist a.block a.source).largestSize = _
      rw [largest, sound.largest]
      rfl
    · exact sound.cache.mono grows
    · intro block inUse
      rcases List.mem_append.mp inUse with old | new
      · exact (sound.inUse block old).trans grows
      · rw [List.mem_singleton.mp new]
        change a.block.commitSize ≤ (s.accounts.enlist a.block a.source).largestSize
        rw [largest]
        exact le_max_left _ _
    · intro block inRemoved
      exact (sound.removed block inRemoved).trans grows
    · intro b inRest source
      exact (sound.fromCache b (kept b inRest) source).trans grows
    · intro b inRest
      exact sound.fromArena b (kept b inRest)
  | write place block bytes get =>
    refine { sound with balanced := sound.balanced.write get bytes, inUse := ?_ }
    intro other member
    rcases List.mem_or_eq_of_mem_set member with old | rfl
    · exact sound.inUse other old
    · exact sound.inUse block (List.mem_of_getElem? get)
  | delist place block get =>
    refine { sound with balanced := sound.balanced.delist get, inUse := ?_, removed := ?_ }
    · intro other member
      exact sound.inUse other ((List.eraseIdx_sublist _ _).subset member)
    · intro other member
      rcases List.mem_append.mp member with old | new
      · exact sound.removed other old
      · rw [List.mem_singleton.mp new]
        exact sound.inUse block (List.mem_of_getElem? get)
  | release place block pool arenas pid cpu opts now cache' get run =>
    have le := sound.removed block (List.mem_of_getElem? get)
    refine { sound with cache := sound.cache.release le run, removed := ?_ }
    intro other member
    exact sound.removed other ((List.eraseIdx_sublist _ _).subset member)
  | setOption o value => exact { sound with cache := sound.cache.setOption p o value }
  | releaseToOS =>
    exact { sound with cache := sound.cache.releaseOlderThan (below_stable _) _ }
  | disableMemoryTagging => exact { sound with cache := sound.cache.disableMemoryTagging }

theorem Initial.sound {s : Books p} (initial : Initial config s) : Sound s := by
  obtain ⟨⟨interval, heap⟩, accounts, obtained, removed, handedOut⟩ := initial
  apply Sound.mk
  · rw [accounts, heap]
    exact ⟨by simp [Accounts.zero], sub_self _, rfl, rfl, rfl⟩
  · rw [accounts, handedOut]
    rfl
  · rw [heap]
    exact init_below _ config interval
  · rw [heap]
    intro block member
    exact absurd member List.not_mem_nil
  · rw [removed]
    intro block member
    exact absurd member List.not_mem_nil
  · rw [obtained]
    intro a member
    exact absurd member List.not_mem_nil
  · rw [obtained]
    intro a member
    exact absurd member List.not_mem_nil

theorem reachable_sound {s : Books p} (reached : (system p config).Reachable s) : Sound s := by
  apply reached.invariant
  · intro s initial
    exact initial.sound
  · intro s s' sound step
    exact step.sound sound

end Books

/-- In every state of every run the counters balance, and the largest size is that of the
largest block ever handed out. -/
theorem secondary_accounts_balance {p : Platform} {config : CacheConfig} {s : Books p}
    (reached : (Books.system p config).Reachable s) :
    s.accounts.Balanced s.heap.inUse ∧ s.accounts.largestSize = s.handedOut.foldr max 0 :=
  ⟨(Books.reachable_sound reached).balanced, (Books.reachable_sound reached).largest⟩

section Schedules

namespace Books
open MapAllocator

/-- What a schedule picks next. -/
inductive Move
  | obtain (sur : Surroundings) (req : Request)
  | enlist (place : Nat)
  | delist (place : Nat)
  | release (place : Nat) (sur : Surroundings) (opts : Options) (now : Nat)

variable {p : Platform} {config : CacheConfig} {s s' : Books p}

/-- One move; `none` when it is not possible. -/
def move (config : CacheConfig) (s : Books p) : Move → Option (Books p)
  | .obtain sur req => (allocate p sur s.heap.cache req).map fun (a, cache, _) =>
      { s with heap := ⟨cache, s.heap.inUse⟩, obtained := s.obtained ++ a.toList }
  | .enlist place => s.obtained[place]?.map fun a =>
      { s with
        heap := ⟨s.heap.cache, s.heap.inUse ++ [a.block]⟩
        accounts := s.accounts.enlist a.block a.source
        obtained := s.obtained.eraseIdx place
        handedOut := a.block.commitSize :: s.handedOut }
  | .delist place => s.heap.inUse[place]?.map fun block =>
      { s with
        heap := ⟨s.heap.cache, s.heap.inUse.eraseIdx place⟩
        accounts := s.accounts.delist block
        removed := s.removed ++ [block] }
  | .release place sur opts now => s.removed[place]?.bind fun block =>
      (MapAllocator.release p config opts now s.heap.cache block (route sur.pool sur.arenas sur.pid
        sur.cpu (s.heap.cache.canCache block.commitSize) block)).map fun cache =>
      { s with heap := ⟨cache, s.heap.inUse⟩, removed := s.removed.eraseIdx place }

def play (config : CacheConfig) : Books p → List Move → Option (Books p)
  | s, [] => some s
  | s, first :: rest => (s.move config first).bind fun s => s.play config rest

theorem step_of_move {m : Move} (run : s.move config m = some s') : Step p config s s' := by
  cases m with
  | obtain sur req =>
    obtain ⟨⟨a, cache, result⟩, allocated, rfl⟩ := Option.map_eq_some_iff.mp run
    exact Step.obtain sur req a cache result allocated
  | enlist place =>
    obtain ⟨a, get, rfl⟩ := Option.map_eq_some_iff.mp run
    exact Step.enlist place a get
  | delist place =>
    obtain ⟨block, get, rfl⟩ := Option.map_eq_some_iff.mp run
    exact Step.delist place block get
  | release place sur opts now =>
    obtain ⟨block, get, rest⟩ := Option.bind_eq_some_iff.mp run
    obtain ⟨cache, released, rfl⟩ := Option.map_eq_some_iff.mp rest
    exact Step.release place block sur.pool sur.arenas sur.pid sur.cpu opts now cache get released

/-- A list of moves ends in a reachable state. -/
theorem reachable_play {moves : List Move} (reached : (system p config).Reachable s)
    (run : s.play config moves = some s') : (system p config).Reachable s' := by
  induction moves generalizing s with
  | nil =>
    cases run
    exact reached
  | cons first rest ih =>
    obtain ⟨middle, move, run⟩ := Option.bind_eq_some_iff.mp run
    exact ih (reached.step (step_of_move move)) run

end Books

end Schedules

/-- A cache of four entries of up to 1 MB that are never released to the system. -/
def fourKept : CacheConfig := ⟨4, 0, 4, 2 ^ 20, -1, -1, -1⟩

def noBooks : Books Platform.linux64 :=
  ⟨⟨Cache.init fourKept (-1), []⟩, Accounts.zero _, [], [], []⟩

/-- The arena of CPU 0 is mapped and used. -/
def arenaSurroundings : Surroundings :=
  { quietSurroundings Platform.linux64 with
    pool := ⟨true, 1, 1⟩
    cpu := some 0
    useArena := true }

/-- A block of an arena and one of a new mapping enter the list; the second one is freed into
the cache and serves a smaller request, and then the first one is freed. -/
def mixedBooks : List Books.Move :=
  [.obtain arenaSurroundings ⟨⟨false, false⟩, 100000, 16, .noFill⟩, .enlist 0,
    .obtain (quietSurroundings Platform.linux64) ⟨⟨false, false⟩, 60000, 16, .noFill⟩, .enlist 0,
    .delist 1, .release 0 arenaSurroundings ⟨false, false⟩ 7,
    .obtain (quietSurroundings Platform.linux64) ⟨⟨false, false⟩, 50000, 16, .noFill⟩, .enlist 0,
    .delist 0, .release 0 arenaSurroundings ⟨false, false⟩ 8]

theorem secondary_accounts_balance_mixed :
    ∃ s : Books Platform.linux64, noBooks.play fourKept mixedBooks = some s ∧
      s.accounts.numberOfAllocs = 3 ∧ s.accounts.numberOfFrees = 2 ∧
      s.handedOut = [61440, 61440, 102400] ∧
      s.heap.inUse.map (fun block => (block.commitSize, block.memMap.capacity)) =
        [(61440, 69632)] ∧
      s.accounts.Balanced s.heap.inUse ∧ s.accounts.largestSize = 102400 := by
  obtain ⟨s, run⟩ := Option.isSome_iff_exists.mp
    (show (noBooks.play fourKept mixedBooks).isSome = true by decide +kernel)
  have shape : (noBooks.play fourKept mixedBooks).all (fun s =>
      s.accounts.numberOfAllocs = 3 ∧ s.accounts.numberOfFrees = 2 ∧
      s.handedOut = [61440, 61440, 102400] ∧
      s.heap.inUse.map (fun block => (block.commitSize, block.memMap.capacity)) =
        [(61440, 69632)]) = true := by
    decide +kernel
  rw [run, Option.all_some, decide_eq_true_eq] at shape
  obtain ⟨allocs, frees, handedOut, inUse⟩ := shape
  have start : (Books.system Platform.linux64 fourKept).Reachable noBooks :=
    Lib.System.Reachable.init ⟨⟨-1, rfl⟩, rfl, rfl, rfl, rfl⟩
  obtain ⟨balanced, largest⟩ := secondary_accounts_balance (Books.reachable_play start run)
  rw [handedOut] at largest
  exact ⟨s, run, allocs, frees, handedOut, inUse, balanced, largest⟩

end Scudo.Secondary
