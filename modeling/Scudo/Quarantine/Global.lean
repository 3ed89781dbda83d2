import Scudo.Lib.Tally
import Scudo.Lib.Transition
import Scudo.Quarantine.CacheSpec

/-!
`GlobalQuarantine` under any interleaving of threads, each with its own cache. A critical
section under `CacheMutex` is one step, and so is each operation on `RecycleMutex`; between
them every other thread may run. The state also records what was put and recycled so far, and
which batches were allocated and deallocated.
-/

namespace Scudo.Quarantine
open Scudo.Lib
open Scudo.Secondary (WordSize)

/-- `MaxSize`, `MinSize` and `MaxCacheSize`. -/
structure Limits where
  maxSize : Nat
  minSize : Nat
  maxCacheSize : Nat
  deriving DecidableEq, Repr

/-- `init`, `none` where its check fails. -/
def Limits.init (size cacheSize : Nat) : Option Limits :=
  if size = 0 ∧ cacheSize = 0 ∨ cacheSize ≠ 0 then some ⟨size, size / 10 * 9, cacheSize⟩ else none

/-- A batch that `doRecycle` has dequeued, with the chunks that are still to be recycled. -/
structure Current where
  addr : Nat
  chunks : List Chunk
  deriving DecidableEq, Repr

/-- Where a thread is between two of its steps. -/
inductive Phase where
  | idle
  /-- Before the critical section of `drain`. -/
  | draining
  /-- Before `tryLock`, when `needRecycle` is set. -/
  | trying
  /-- Before the critical section of `drainAndRecycle`. -/
  | flushing
  /-- Before `RecycleMutex.lock`. -/
  | locking
  /-- In `recycle` with the lock held, before its critical section. -/
  | extracting (minSize : Nat)
  | unlocking (tmp : QuarantineCache)
  /-- In `doRecycle`. -/
  | recycling (tmp : QuarantineCache) (current : Option Current)
  deriving DecidableEq, Repr

/-- `closed` tells that the last call of the thread, a `drainAndRecycle`, has begun. -/
structure Thread where
  cache : QuarantineCache
  phase : Phase
  closed : Bool
  deriving DecidableEq, Repr

structure GlobalQuarantine (τ : Type*) where
  cache : QuarantineCache
  recycleMutex : Option τ
  thread : τ → Thread
  puts : Multiset Chunk
  recycled : Multiset Chunk
  allocated : Multiset Nat
  deallocated : Multiset Nat

def Current.items (current : Current) : Multiset Item :=
  Item.batch current.addr ::ₘ chunkItems current.chunks

/-- What has been extracted and not recycled yet. -/
def Phase.items : Phase → Multiset Item
  | .unlocking tmp => tmp.items
  | .recycling tmp none => tmp.items
  | .recycling tmp (some current) => current.items + tmp.items
  | _ => 0

def Thread.items (th : Thread) : Multiset Item := th.cache.items + th.phase.items

namespace GlobalQuarantine

variable {τ : Type*}

section Items

variable [Fintype τ]

/-- All chunks that are not recycled yet, and the batches that hold them. -/
def items (s : GlobalQuarantine τ) : Multiset Item := (∑ t, (s.thread t).items) + s.cache.items

end Items

variable [DecidableEq τ]

/-- One thread moves on. -/
def setThread (s : GlobalQuarantine τ) (t : τ) (th : Thread) : GlobalQuarantine τ :=
  { s with thread := Function.update s.thread t th }

/-- The steps of a thread. A `put` may be given any chunk, and where it needs a batch any memory for
one, as long as the sizes of all that is kept can be added up in a word. -/
inductive Step [Fintype τ] (word : WordSize) (limits : Limits) : GlobalQuarantine τ → GlobalQuarantine τ → Prop
  | put {s : GlobalQuarantine τ} (t : τ) (th : Thread) (is : s.thread t = th) (idle : th.phase = .idle)
      (running : th.closed = false) (chunk : Chunk) (addr : Nat)
      (room : weight word (s.items + th.cache.entering addr chunk) < 2 ^ word.bits) :
      Step word limits s { s.setThread t { th with
          cache := th.cache.enqueue word addr chunk
          phase := if limits.maxCacheSize < (th.cache.enqueue word addr chunk).size then .draining
            else .idle } with
        puts := chunk ::ₘ s.puts
        allocated := if th.cache.needsBatch then addr ::ₘ s.allocated else s.allocated }
  | callDrain {s : GlobalQuarantine τ} (t : τ) (th : Thread) (is : s.thread t = th)
      (idle : th.phase = .idle) (running : th.closed = false) :
      Step word limits s (s.setThread t { th with phase := .draining })
  | callDrainAndRecycle {s : GlobalQuarantine τ} (t : τ) (th : Thread) (is : s.thread t = th)
      (idle : th.phase = .idle) (running : th.closed = false) (last : Bool) :
      Step word limits s (s.setThread t { th with phase := .flushing, closed := last })
  | drain {s : GlobalQuarantine τ} (t : τ) (th : Thread) (is : s.thread t = th)
      (draining : th.phase = .draining) :
      Step word limits s { s.setThread t { th with
          cache := QuarantineCache.empty
          phase := if limits.maxSize < (s.cache.transfer word th.cache).size then .trying
            else .idle } with
        cache := s.cache.transfer word th.cache }
  | tryLock {s : GlobalQuarantine τ} (t : τ) (th : Thread) (is : s.thread t = th)
      (trying : th.phase = .trying) (free : s.recycleMutex = none) :
      Step word limits s { s.setThread t { th with phase := .extracting limits.minSize } with
        recycleMutex := some t }
  | tryLockFails {s : GlobalQuarantine τ} (t : τ) (th : Thread) (is : s.thread t = th)
      (trying : th.phase = .trying) (taken : s.recycleMutex ≠ none) :
      Step word limits s (s.setThread t { th with phase := .idle })
  | flush {s : GlobalQuarantine τ} (t : τ) (th : Thread) (is : s.thread t = th)
      (flushing : th.phase = .flushing) :
      Step word limits s { s.setThread t { th with
          cache := QuarantineCache.empty, phase := .locking } with
        cache := s.cache.transfer word th.cache }
  | lock {s : GlobalQuarantine τ} (t : τ) (th : Thread) (is : s.thread t = th)
      (locking : th.phase = .locking) (free : s.recycleMutex = none) :
      Step word limits s { s.setThread t { th with phase := .extracting 0 } with
        recycleMutex := some t }
  | extract {s : GlobalQuarantine τ} (t : τ) (th : Thread) (is : s.thread t = th) (minSize : Nat)
      (extracting : th.phase = .extracting minSize) (cache tmp : QuarantineCache)
      (run : s.cache.extractForRecycle word minSize = some (cache, tmp)) :
      Step word limits s { s.setThread t { th with phase := .unlocking tmp } with cache := cache }
  | unlock {s : GlobalQuarantine τ} (t : τ) (th : Thread) (is : s.thread t = th) (tmp : QuarantineCache)
      (unlocking : th.phase = .unlocking tmp) :
      Step word limits s { s.setThread t { th with phase := .recycling tmp none } with
        recycleMutex := none }
  | dequeue {s : GlobalQuarantine τ} (t : τ) (th : Thread) (is : s.thread t = th)
      (tmp tmp' : QuarantineCache) (recycling : th.phase = .recycling tmp none)
      (b : QuarantineBatch) (run : tmp.dequeueBatch word = (some b, tmp')) (seed : UInt32) :
      Step word limits s
        (s.setThread t { th with phase := .recycling tmp' (some ⟨b.addr, shuffle b.batch seed⟩) })
  | recycle {s : GlobalQuarantine τ} (t : τ) (th : Thread) (is : s.thread t = th)
      (tmp : QuarantineCache) (addr : Nat) (chunk : Chunk) (rest : List Chunk)
      (recycling : th.phase = .recycling tmp (some ⟨addr, chunk :: rest⟩)) :
      Step word limits s
        { s.setThread t { th with phase := .recycling tmp (some ⟨addr, rest⟩) } with
          recycled := chunk ::ₘ s.recycled }
  | deallocate {s : GlobalQuarantine τ} (t : τ) (th : Thread) (is : s.thread t = th)
      (tmp : QuarantineCache) (addr : Nat)
      (recycling : th.phase = .recycling tmp (some ⟨addr, []⟩)) :
      Step word limits s
        { s.setThread t { th with phase := .recycling tmp none } with
          deallocated := addr ::ₘ s.deallocated }
  | finish {s : GlobalQuarantine τ} (t : τ) (th : Thread) (is : s.thread t = th)
      (tmp tmp' : QuarantineCache) (recycling : th.phase = .recycling tmp none)
      (run : tmp.dequeueBatch word = (none, tmp')) :
      Step word limits s (s.setThread t { th with phase := .idle })

/-- Nothing put yet, all caches initialised. -/
def start : GlobalQuarantine τ where
  cache := QuarantineCache.empty
  recycleMutex := none
  thread := fun _ => ⟨QuarantineCache.empty, .idle, false⟩
  puts := 0
  recycled := 0
  allocated := 0
  deallocated := 0

def system [Fintype τ] (word : WordSize) (limits : Limits) : System (GlobalQuarantine τ) :=
  ⟨fun s => s = start, Step word limits⟩

/-- What came in, and what went out again. -/
def entered (s : GlobalQuarantine τ) : Multiset Item :=
  s.puts.map Item.chunk + s.allocated.map Item.batch

def left (s : GlobalQuarantine τ) : Multiset Item :=
  s.recycled.map Item.chunk + s.deallocated.map Item.batch

/-- The caches of a phase are exact. -/
def ExactPhase (word : WordSize) : Phase → Prop
  | .unlocking tmp => tmp.Exact word
  | .recycling tmp _ => tmp.Exact word
  | _ => True

/-- The final `drainAndRecycle` of a thread has not emptied the cache yet. -/
def Pending (phase : Phase) : Prop :=
  phase = .flushing ∨ phase = .locking ∨ phase = .extracting 0

/-- What holds of one thread. -/
structure ThreadSound (word : WordSize) (th : Thread) : Prop where
  cache : th.cache.Exact word
  phase : ExactPhase word th.phase
  calls : th.closed = true → th.phase ≠ .draining
  flushed : th.closed = true → th.phase ≠ .flushing → th.cache.list = []

structure Sound [Fintype τ] (word : WordSize) (s : GlobalQuarantine τ) : Prop where
  conserved : s.entered = s.left + s.items
  memory : weight word s.items < 2 ^ word.bits
  cache : s.cache.Exact word
  thread : ∀ t, ThreadSound word (s.thread t)
  emptied : (∀ t, (s.thread t).closed = true ∧ ¬Pending (s.thread t).phase) → s.cache.list = []

section Sums

variable [Fintype τ] {s : GlobalQuarantine τ} {word : WordSize}

omit [DecidableEq τ] in
theorem thread_items_le (s : GlobalQuarantine τ) (t : τ) :
    (s.thread t).items + s.cache.items ≤ s.items := by
  unfold items
  have le := Finset.single_le_sum (f := fun u => (s.thread u).items)
    (fun _ _ => Multiset.zero_le _) (Finset.mem_univ t)
  exact Multiset.add_le_add_right le

omit [DecidableEq τ] in
theorem Sound.cache_size_lt (sound : s.Sound word) : s.cache.size < 2 ^ word.bits := by
  rw [← sound.cache.weight_eq]
  exact (weight_mono (Multiset.le_add_left _ _)).trans_lt sound.memory

omit [DecidableEq τ] in
/-- A thread and the global cache fit into the address space together. -/
theorem Sound.sizes_lt (sound : s.Sound word) (t : τ) :
    weight word (s.thread t).phase.items + (s.thread t).cache.size + s.cache.size <
      2 ^ word.bits := by
  have bound := (weight_mono (thread_items_le s t)).trans_lt sound.memory
  unfold Thread.items at bound
  rw [weight_add, weight_add, (sound.thread t).cache.weight_eq, sound.cache.weight_eq] at bound
  omega

/-- What thread `t` and the global cache exchange, gain and lose is what all together do. -/
theorem items_exchange {s' : GlobalQuarantine τ} {t : τ} {th : Thread}
    (moved : s'.thread = Function.update s.thread t th) {lost gained : Multiset Item}
    (exchange : th.items + s'.cache.items + lost = (s.thread t).items + s.cache.items + gained) :
    s'.items + lost = s.items + gained := by
  unfold items
  rw [moved]
  exact sum_update_exchange Thread.items exchange

end Sums

section Steps

variable [Fintype τ] {word : WordSize} {limits : Limits} {s s' : GlobalQuarantine τ} {t : τ}
  {th : Thread}

/-- What one step does to the items: those that it adds and those that it takes away. -/
structure Moves (word : WordSize) (s s' : GlobalQuarantine τ) (lost gained : Multiset Item) :
    Prop where
  items : s'.items + lost = s.items + gained
  entered : s'.entered = s.entered + gained
  left : s'.left = s.left + lost
  room : weight word (s.items + gained) < 2 ^ word.bits

/-- A step that only passes items on. -/
theorem Moves.pass (sound : s.Sound word) (moved : s'.thread = Function.update s.thread t th)
    (exchange : th.items + s'.cache.items = (s.thread t).items + s.cache.items)
    (entered : s'.entered = s.entered) (left : s'.left = s.left) : Moves word s s' 0 0 where
  items := items_exchange moved (by rw [add_zero, add_zero, exchange])
  entered := by rw [entered, add_zero]
  left := by rw [left, add_zero]
  room := by
    rw [add_zero]
    exact sound.memory

/-- A step that takes items away for good. -/
theorem Moves.release (sound : s.Sound word) (moved : s'.thread = Function.update s.thread t th)
    {lost : Multiset Item}
    (exchange : th.items + s'.cache.items + lost = (s.thread t).items + s.cache.items)
    (entered : s'.entered = s.entered) (left : s'.left = s.left + lost) :
    Moves word s s' lost 0 where
  items := items_exchange moved (by rw [add_zero, exchange])
  entered := by rw [entered, add_zero]
  left := left
  room := by
    rw [add_zero]
    exact sound.memory

/-- All invariants after a step of thread `t`, from what the step does to it and to the global
cache. -/
theorem Sound.advance (sound : s.Sound word) (moved : s'.thread = Function.update s.thread t th)
    {lost gained : Multiset Item} (moves : Moves word s s' lost gained)
    (cache : s'.cache.Exact word) (own : ThreadSound word th)
    (emptied : th.closed = true → ¬Pending th.phase →
      ((s.thread t).closed = true → ¬Pending (s.thread t).phase → s.cache.list = []) →
      s'.cache.list = []) : s'.Sound word where
  conserved := by
    calc s'.entered
        = s.left + (s.items + gained) := by rw [moves.entered, sound.conserved, add_assoc]
      _ = s.left + lost + s'.items := by rw [← moves.items]; abel
      _ = s'.left + s'.items := by rw [← moves.left]
  memory := by
    apply (weight_mono _).trans_lt moves.room
    rw [← moves.items]
    exact Multiset.le_add_right _ _
  cache := cache
  thread := by
    intro u
    rw [moved]
    by_cases same : u = t
    · rw [same, Function.update_self]
      exact own
    · rw [Function.update_of_ne same]
      exact sound.thread u
  emptied := by
    intro all
    rw [moved] at all
    have now := all t
    rw [Function.update_self] at now
    apply emptied now.1 now.2
    intro closed done
    apply sound.emptied
    intro u
    by_cases same : u = t
    · rw [same]
      exact ⟨closed, done⟩
    · have other := all u
      rw [Function.update_of_ne same] at other
      exact other

/-- A step that changes nothing but the phase of a thread, to one without chunks. -/
theorem Sound.rephase (sound : s.Sound word) (is : s.thread t = th) {phase : Phase} {closed : Bool}
    (moved : s'.thread = Function.update s.thread t { th with phase := phase, closed := closed })
    (cache : s'.cache = s.cache) (entered : s'.entered = s.entered) (left : s'.left = s.left)
    (none : th.phase.items = 0) (none' : phase.items = 0) (exactPhase : ExactPhase word phase)
    (calls : closed = true → phase ≠ .draining)
    (flushed : closed = true → phase ≠ .flushing → th.closed = true ∧ th.phase ≠ .flushing)
    (emptied : closed = true → ¬Pending phase → th.closed = true ∧ ¬Pending th.phase) :
    s'.Sound word := by
  have old := sound.thread t
  rw [is] at old
  apply sound.advance moved (Moves.pass sound moved _ entered left)
  · rw [cache]
    exact sound.cache
  · refine ⟨old.cache, exactPhase, calls, ?_⟩
    intro isClosed settled
    exact old.flushed (flushed isClosed settled).1 (flushed isClosed settled).2
  · intro isClosed done before
    rw [cache]
    rw [is] at before
    exact before (emptied isClosed done).1 (emptied isClosed done).2
  · unfold Thread.items
    rw [is, cache, none]
    dsimp only
    rw [none']

theorem put_moves (s : GlobalQuarantine τ) (t : τ) (chunk : Chunk) (addr : Nat)
    (room : weight word (s.items + (s.thread t).cache.entering addr chunk) < 2 ^ word.bits)
    (idle : (s.thread t).phase.items = 0) {phase : Phase} (none : phase.items = 0)
    (moved : s'.thread = Function.update s.thread t
      ⟨(s.thread t).cache.enqueue word addr chunk, phase, (s.thread t).closed⟩)
    (cache : s'.cache = s.cache) (puts : s'.puts = chunk ::ₘ s.puts)
    (allocated : s'.allocated =
      if (s.thread t).cache.needsBatch then addr ::ₘ s.allocated else s.allocated)
    (left : s'.left = s.left) :
    Moves word s s' 0 ((s.thread t).cache.entering addr chunk) where
  items := by
    apply items_exchange moved
    unfold Thread.items
    dsimp only
    rw [idle, none, cache, QuarantineCache.enqueue_items]
    abel
  entered := by
    unfold entered
    rw [puts, allocated, Multiset.map_cons, ← Multiset.singleton_add]
    unfold QuarantineCache.entering
    rw [← Multiset.singleton_add (Item.chunk chunk)]
    split_ifs
    · rw [Multiset.map_cons, ← Multiset.singleton_add (Item.batch addr)]
      abel
    · abel
  left := by rw [left, add_zero]
  room := room

/-- A thread hands its whole cache to the global one. -/
theorem Sound.handOver (sound : s.Sound word) (t : τ) {phase : Phase}
    (moved : s'.thread = Function.update s.thread t
      ⟨QuarantineCache.empty, phase, (s.thread t).closed⟩)
    (cache : s'.cache = s.cache.transfer word (s.thread t).cache)
    (entered : s'.entered = s.entered) (left : s'.left = s.left)
    (none : (s.thread t).phase.items = 0) (none' : phase.items = 0)
    (exactPhase : ExactPhase word phase) (calls : (s.thread t).closed = true → phase ≠ .draining)
    (pending : (s.thread t).closed = true → Pending phase) : s'.Sound word := by
  have room := sound.sizes_lt t
  apply sound.advance moved (Moves.pass sound moved _ entered left)
  · rw [cache]
    exact QuarantineCache.transfer_exact sound.cache (sound.thread t).cache (by omega)
  · exact ⟨QuarantineCache.empty_exact, exactPhase, calls, fun _ _ => rfl⟩
  · intro closed done
    exact absurd (pending closed) done
  · unfold Thread.items
    dsimp only
    rw [none, none', cache, QuarantineCache.transfer_items]
    change 0 + 0 + _ = _
    abel

/-- The critical section of `recycle` moves batches from the global cache to the thread. -/
theorem Sound.extract (sound : s.Sound word) (t : τ) {minSize : Nat}
    (extracting : (s.thread t).phase = .extracting minSize) {cache tmp : QuarantineCache}
    (run : s.cache.extractForRecycle word minSize = some (cache, tmp))
    (moved : s'.thread = Function.update s.thread t
      ⟨(s.thread t).cache, .unlocking tmp, (s.thread t).closed⟩)
    (newCache : s'.cache = cache) (entered : s'.entered = s.entered) (left : s'.left = s.left) :
    s'.Sound word := by
  have old := sound.thread t
  obtain ⟨cache', tmp', run', exact', tmpExact, items, below⟩ :=
    QuarantineCache.extractForRecycle_spec minSize sound.cache sound.cache_size_lt
  rw [run] at run'
  cases run'
  apply sound.advance moved (Moves.pass sound moved _ entered left)
  · rw [newCache]
    exact exact'
  · refine ⟨old.cache, tmpExact, nofun, ?_⟩
    intro closed _
    exact old.flushed closed (by simp [extracting])
  · intro closed _ before
    rw [newCache]
    by_cases all : minSize = 0
    · exact exact'.list_eq_nil (by omega)
    · -- nothing was left to extract
      have empty := before closed (by simp [Pending, extracting, all])
      have weights := congrArg (weight word) items
      have nothing : s.cache.size = 0 := by
        rw [sound.cache.size, empty]
        rfl
      rw [weight_add, exact'.weight_eq, tmpExact.weight_eq, sound.cache.weight_eq] at weights
      exact exact'.list_eq_nil (by omega)
  · unfold Thread.items
    dsimp only
    rw [extracting, newCache, ← items]
    change _ + tmp.items + _ = _ + 0 + _
    abel

/-- A step inside `doRecycle`. -/
theorem Sound.insideRecycle (sound : s.Sound word) (t : τ) {tmp tmp' : QuarantineCache}
    {current current' : Option Current}
    (recycling : (s.thread t).phase = .recycling tmp current)
    (moved : s'.thread = Function.update s.thread t
      ⟨(s.thread t).cache, .recycling tmp' current', (s.thread t).closed⟩)
    (cache : s'.cache = s.cache) (entered : s'.entered = s.entered) {lost : Multiset Item}
    (left : s'.left = s.left + lost) (tmpExact : tmp'.Exact word)
    (exchange : Phase.items (.recycling tmp' current') + lost =
      Phase.items (.recycling tmp current)) : s'.Sound word := by
  have old := sound.thread t
  have unpending : ∀ tmp current, ¬Pending (.recycling tmp current) := by
    intro tmp current
    simp [Pending]
  apply sound.advance moved (Moves.release sound moved _ entered left)
  · rw [cache]
    exact sound.cache
  · refine ⟨old.cache, tmpExact, nofun, ?_⟩
    intro closed _
    exact old.flushed closed (by simp [recycling])
  · intro closed _ before
    rw [cache]
    rw [recycling] at before
    exact before closed (unpending tmp current)
  · unfold Thread.items
    dsimp only
    rw [recycling, cache, ← exchange]
    abel

theorem Step.sound (step : Step word limits s s') (sound : s.Sound word) : s'.Sound word := by
  cases step with
  | put t th is idle running chunk addr room =>
    subst is
    have old := sound.thread t
    have none : (if limits.maxCacheSize < ((s.thread t).cache.enqueue word addr chunk).size then
        Phase.draining else Phase.idle).items = 0 := by
      split_ifs <;> rfl
    have within : (s.thread t).cache.items + (s.thread t).cache.entering addr chunk ≤
        s.items + (s.thread t).cache.entering addr chunk := by
      apply Multiset.add_le_add_right
      exact (Multiset.le_add_right _ _).trans
        ((Multiset.le_add_right _ _).trans (thread_items_le s t))
    refine sound.advance rfl (put_moves s t chunk addr room (by rw [idle]; rfl) none rfl rfl rfl
      rfl rfl) sound.cache ?_ ?_
    · refine ⟨QuarantineCache.enqueue_exact old.cache ((weight_mono within).trans_lt room), ?_, ?_, ?_⟩
      · dsimp only
        split_ifs <;> trivial
      · exact fun closed => absurd closed (by simp [running])
      · exact fun closed => absurd closed (by simp [running])
    · exact fun closed => absurd closed (by simp [running])
  | callDrain t th is idle running =>
    refine sound.rephase is rfl rfl rfl rfl (by rw [idle]; rfl) rfl trivial ?_ ?_ ?_
    · exact fun closed => absurd closed (by simp [running])
    · exact fun closed => absurd closed (by simp [running])
    · exact fun closed => absurd closed (by simp [running])
  | callDrainAndRecycle t th is idle running last =>
    refine sound.rephase is rfl rfl rfl rfl (by rw [idle]; rfl) rfl trivial ?_ ?_ ?_
    · exact fun _ => nofun
    · exact fun _ settled => absurd rfl settled
    · exact fun _ done => absurd (Or.inl rfl) done
  | drain t th is draining =>
    subst is
    have running : (s.thread t).closed ≠ true := fun closed =>
      (sound.thread t).calls closed draining
    refine sound.handOver t rfl rfl rfl rfl (by rw [draining]; rfl) ?_ ?_ ?_ ?_
    · split_ifs <;> rfl
    · split_ifs <;> trivial
    · exact fun closed => absurd closed running
    · exact fun closed => absurd closed running
  | tryLock t th is trying free =>
    refine sound.rephase is rfl rfl rfl rfl (by rw [trying]; rfl) rfl trivial ?_ ?_ ?_
    · exact fun _ => nofun
    · exact fun closed _ => ⟨closed, by simp [trying]⟩
    · exact fun closed _ => ⟨closed, by simp [trying, Pending]⟩
  | tryLockFails t th is trying taken =>
    refine sound.rephase is rfl rfl rfl rfl (by rw [trying]; rfl) rfl trivial ?_ ?_ ?_
    · exact fun _ => nofun
    · exact fun closed _ => ⟨closed, by simp [trying]⟩
    · exact fun closed _ => ⟨closed, by simp [trying, Pending]⟩
  | flush t th is flushing =>
    subst is
    refine sound.handOver t rfl rfl rfl rfl (by rw [flushing]; rfl) rfl trivial ?_ ?_
    · exact fun _ => nofun
    · exact fun _ => Or.inr (Or.inl rfl)
  | lock t th is locking free =>
    refine sound.rephase is rfl rfl rfl rfl (by rw [locking]; rfl) rfl trivial ?_ ?_ ?_
    · exact fun _ => nofun
    · exact fun closed _ => ⟨closed, by simp [locking]⟩
    · exact fun _ done => absurd (Or.inr (Or.inr rfl)) done
  | extract t th is minSize extracting cache tmp run =>
    subst is
    exact sound.extract t extracting run rfl rfl rfl rfl
  | unlock t th is tmp unlocking =>
    subst is
    have old := sound.thread t
    have tmpExact := old.phase
    rw [unlocking] at tmpExact
    refine sound.advance rfl (Moves.pass sound rfl ?_ rfl rfl) sound.cache ?_ ?_
    · unfold Thread.items
      rw [unlocking]
      rfl
    · refine ⟨old.cache, tmpExact, nofun, ?_⟩
      exact fun closed _ => old.flushed closed (by simp [unlocking])
    · exact fun closed _ before => before closed (by simp [unlocking, Pending])
  | dequeue t th is tmp tmp' recycling b run seed =>
    subst is
    have tmpExact := (sound.thread t).phase
    have room := sound.sizes_lt t
    rw [recycling] at tmpExact room
    change weight word tmp.items + _ + _ < _ at room
    rw [QuarantineCache.Exact.weight_eq tmpExact] at room
    obtain ⟨_, tmpExact', items⟩ := QuarantineCache.dequeueBatch_spec tmpExact (by omega) run
    refine sound.insideRecycle t recycling rfl rfl rfl (add_zero _).symm tmpExact' ?_
    change Current.items ⟨b.addr, shuffle b.batch seed⟩ + tmp'.items + 0 = tmp.items
    unfold Current.items
    rw [add_zero, items, chunkItems_perm (shuffle_perm b.batch seed)]
    rfl
  | recycle t th is tmp addr chunk rest recycling =>
    subst is
    have tmpExact := (sound.thread t).phase
    rw [recycling] at tmpExact
    have lost : left { s.setThread t ⟨(s.thread t).cache, .recycling tmp (some ⟨addr, rest⟩),
        (s.thread t).closed⟩ with recycled := chunk ::ₘ s.recycled } =
          s.left + {Item.chunk chunk} := by
      unfold left
      rw [Multiset.map_cons, ← Multiset.singleton_add]
      change {Item.chunk chunk} + s.recycled.map Item.chunk + s.deallocated.map Item.batch = _
      abel
    refine sound.insideRecycle t recycling rfl rfl rfl lost tmpExact ?_
    have parts : chunkItems (chunk :: rest) = {Item.chunk chunk} + chunkItems rest := rfl
    change Current.items ⟨addr, rest⟩ + tmp.items + _ =
      Current.items ⟨addr, chunk :: rest⟩ + tmp.items
    unfold Current.items
    rw [parts, ← Multiset.singleton_add, ← Multiset.singleton_add]
    abel
  | deallocate t th is tmp addr recycling =>
    subst is
    have tmpExact := (sound.thread t).phase
    rw [recycling] at tmpExact
    have lost : left { s.setThread t ⟨(s.thread t).cache, .recycling tmp none,
        (s.thread t).closed⟩ with deallocated := addr ::ₘ s.deallocated } =
          s.left + {Item.batch addr} := by
      unfold left
      rw [Multiset.map_cons, ← Multiset.singleton_add]
      change s.recycled.map Item.chunk + ({Item.batch addr} + s.deallocated.map Item.batch) = _
      abel
    refine sound.insideRecycle t recycling rfl rfl rfl lost tmpExact ?_
    have parts : Current.items ⟨addr, []⟩ = {Item.batch addr} := rfl
    change tmp.items + _ = Current.items ⟨addr, []⟩ + tmp.items
    rw [parts]
    exact add_comm _ _
  | finish t th is tmp tmp' recycling run =>
    have empty : tmp.items = 0 := by
      unfold QuarantineCache.dequeueBatch at run
      split at run
      · next none =>
        unfold QuarantineCache.items
        rw [none]
        rfl
      · cases run
    refine sound.rephase is rfl rfl rfl rfl (by rw [recycling]; exact empty) rfl trivial ?_ ?_ ?_
    · exact fun _ => nofun
    · exact fun closed _ => ⟨closed, by simp [recycling]⟩
    · exact fun closed _ => ⟨closed, by simp [recycling, Pending]⟩

omit [DecidableEq τ] in
theorem start_items : (start : GlobalQuarantine τ).items = 0 := by
  have each : ∀ t : τ, ((start : GlobalQuarantine τ).thread t).items = 0 := fun _ => rfl
  unfold items
  rw [Finset.sum_eq_zero fun t _ => each t]
  rfl

omit [DecidableEq τ] in
theorem start_sound (word : WordSize) : (start : GlobalQuarantine τ).Sound word := by
  apply Sound.mk
  · rw [start_items]
    rfl
  · rw [start_items]
    exact Nat.two_pow_pos word.bits
  · exact QuarantineCache.empty_exact
  · exact fun _ => ⟨QuarantineCache.empty_exact, trivial, fun _ => nofun, fun _ _ => rfl⟩
  · exact fun _ => rfl

theorem reachable_sound (reached : (system word limits).Reachable s) : s.Sound word := by
  apply reached.invariant
  · rintro s rfl
    exact start_sound word
  · intro s s' sound step
    exact step.sound sound

end Steps

end GlobalQuarantine

end Scudo.Quarantine
