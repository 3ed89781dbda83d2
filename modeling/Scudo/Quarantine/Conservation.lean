import Scudo.Quarantine.Global

/-!
What the invariant of the quarantine says about chunks, batches and sizes: conservation in
every interleaving, and nothing left behind when every thread has drained and recycled.
-/

namespace Scudo.Quarantine
open Scudo.Lib
open Scudo.Secondary (WordSize)

/-- The chunks among the items. -/
def chunksOf : Multiset Item →+ Multiset Chunk where
  toFun := Multiset.filterMap fun
    | .chunk c => some c
    | .batch _ => none
  map_zero' := Multiset.filterMap_zero _
  map_add' := fun _ _ => Multiset.filterMap_add _ _ _

/-- The addresses of the batches among them. -/
def batchesOf : Multiset Item →+ Multiset Nat where
  toFun := Multiset.filterMap fun
    | .chunk _ => none
    | .batch addr => some addr
  map_zero' := Multiset.filterMap_zero _
  map_add' := fun _ _ => Multiset.filterMap_add _ _ _

def QuarantineCache.chunks (c : QuarantineCache) : Multiset Chunk :=
  (c.list.flatMap QuarantineBatch.batch : List Chunk)

/-- Chunks that a thread has extracted and not recycled. -/
def Phase.chunks : Phase → Multiset Chunk
  | .unlocking tmp => tmp.chunks
  | .recycling tmp none => tmp.chunks
  | .recycling tmp (some current) => (current.chunks : Multiset Chunk) + tmp.chunks
  | _ => 0

section Chunks

theorem filterMap_none {β γ : Type} (s : Multiset β) :
    s.filterMap (fun _ => (none : Option γ)) = 0 := by
  apply Multiset.eq_zero_of_forall_notMem
  intro c member
  obtain ⟨_, _, nothing⟩ := (Multiset.mem_filterMap _ _).mp member
  cases nothing

@[simp] theorem chunksOf_map_chunk (chunks : Multiset Chunk) :
    chunksOf (chunks.map Item.chunk) = chunks :=
  (Multiset.filterMap_map ..).trans (Multiset.filterMap_some _)

@[simp] theorem chunksOf_map_batch (addrs : Multiset Nat) : chunksOf (addrs.map Item.batch) = 0 :=
  (Multiset.filterMap_map ..).trans (filterMap_none addrs)

@[simp] theorem batchesOf_map_chunk (chunks : Multiset Chunk) :
    batchesOf (chunks.map Item.chunk) = 0 :=
  (Multiset.filterMap_map ..).trans (filterMap_none chunks)

@[simp] theorem batchesOf_map_batch (addrs : Multiset Nat) :
    batchesOf (addrs.map Item.batch) = addrs :=
  (Multiset.filterMap_map ..).trans (Multiset.filterMap_some _)

theorem chunksOf_chunkItems (chunks : List Chunk) : chunksOf (chunkItems chunks) = chunks :=
  chunksOf_map_chunk (chunks : Multiset Chunk)

theorem chunksOf_cons_batch (addr : Nat) (items : Multiset Item) :
    chunksOf (Item.batch addr ::ₘ items) = chunksOf items := by
  rw [← Multiset.singleton_add, map_add]
  exact zero_add _

theorem chunksOf_batchesItems (list : List QuarantineBatch) :
    chunksOf (batchesItems list) = (list.flatMap QuarantineBatch.batch : List Chunk) := by
  induction list with
  | nil => rfl
  | cons b rest ih =>
    rw [batchesItems_cons, map_add, ih]
    unfold QuarantineBatch.items
    rw [chunksOf_cons_batch, chunksOf_chunkItems]
    rfl

theorem QuarantineCache.chunksOf_items (c : QuarantineCache) : chunksOf c.items = c.chunks :=
  chunksOf_batchesItems c.list

theorem Phase.chunksOf_items (phase : Phase) : chunksOf phase.items = phase.chunks := by
  cases phase with
  | unlocking tmp => exact tmp.chunksOf_items
  | recycling tmp current =>
    cases current with
    | none => exact tmp.chunksOf_items
    | some current =>
      change chunksOf ((Item.batch current.addr ::ₘ chunkItems current.chunks) + tmp.items) = _
      rw [map_add, chunksOf_cons_batch, chunksOf_chunkItems, tmp.chunksOf_items]
      rfl
  | _ => exact map_zero _

end Chunks

/-- The size of a cache covers its batches, and these cover their chunks and themselves. -/
structure QuarantineCache.Accounted (word : WordSize) (c : QuarantineCache) : Prop where
  batches : c.size = (c.list.map QuarantineBatch.size).sum
  chunks : c.size = (c.chunks.map Chunk.size).sum + c.list.length * sizeofBatch word
  overhead : c.getOverheadSize word ≤ c.size

theorem QuarantineCache.Exact.accounted {word : WordSize} {c : QuarantineCache}
    (exact_ : c.Exact word) (room : c.size < 2 ^ word.bits) : c.Accounted word where
  batches := exact_.size
  chunks := by
    have parts : ∀ list : List QuarantineBatch, (∀ b ∈ list, b.Exact word) →
        (list.map QuarantineBatch.size).sum =
          ((list.flatMap QuarantineBatch.batch).map Chunk.size).sum +
            list.length * sizeofBatch word := by
      intro list
      induction list with
      | nil => intro _; simp
      | cons b rest ih =>
        intro exact_
        have first := (exact_ b List.mem_cons_self).size
        have others := ih fun other member => exact_ other (List.mem_cons_of_mem _ member)
        simp only [List.map_cons, List.sum_cons, List.flatMap_cons, List.map_append,
          List.sum_append, List.length_cons, Nat.add_mul, Nat.one_mul]
        omega
    rw [exact_.size, parts c.list exact_.batches]
    rfl
  overhead := exact_.overhead_le room

namespace GlobalQuarantine

variable {τ : Type*} [Fintype τ] [DecidableEq τ] {word : WordSize} {limits : Limits}

def quarantined (s : GlobalQuarantine τ) : Multiset Chunk :=
  (∑ t, (s.thread t).cache.chunks) + s.cache.chunks

def extracted (s : GlobalQuarantine τ) : Multiset Chunk := ∑ t, (s.thread t).phase.chunks

/-- The global cache, that of a thread, or `Tmp` of a thread in `recycle`. -/
def HasCache (s : GlobalQuarantine τ) (c : QuarantineCache) : Prop :=
  c = s.cache ∨ ∃ t, c = (s.thread t).cache ∨ (s.thread t).phase = .unlocking c ∨
    ∃ current, (s.thread t).phase = .recycling c current

omit [DecidableEq τ] in
theorem chunksOf_items (s : GlobalQuarantine τ) :
    chunksOf s.items = s.quarantined + s.extracted := by
  unfold items quarantined extracted Thread.items
  rw [map_add, map_sum, QuarantineCache.chunksOf_items]
  simp only [map_add, QuarantineCache.chunksOf_items, Phase.chunksOf_items,
    Finset.sum_add_distrib]
  abel

omit [DecidableEq τ] in
theorem Sound.accounted {s : GlobalQuarantine τ} (sound : s.Sound word) {c : QuarantineCache}
    (has : s.HasCache c) : c.Accounted word := by
  rcases has with rfl | ⟨t, rfl | unlocking | ⟨current, recycling⟩⟩
  · exact sound.cache.accounted sound.cache_size_lt
  · have room := sound.sizes_lt t
    exact (sound.thread t).cache.accounted (by omega)
  · have room := sound.sizes_lt t
    have tmpExact := (sound.thread t).phase
    rw [unlocking] at room tmpExact
    change weight word c.items + _ + _ < _ at room
    rw [QuarantineCache.Exact.weight_eq tmpExact] at room
    exact QuarantineCache.Exact.accounted tmpExact (by omega)
  · have room := sound.sizes_lt t
    have tmpExact := (sound.thread t).phase
    rw [recycling] at room tmpExact
    have within : c.items ≤ Phase.items (.recycling c current) := by
      cases current with
      | none => exact le_refl _
      | some current => exact Multiset.le_add_left _ _
    have kept : c.items ≤ s.items := by
      have le := (Multiset.le_add_right _ _).trans (thread_items_le s t)
      unfold Thread.items at le
      rw [recycling] at le
      exact within.trans ((Multiset.le_add_left _ _).trans le)
    have rest := (weight_mono kept).trans_lt sound.memory
    rw [QuarantineCache.Exact.weight_eq tmpExact] at rest
    exact QuarantineCache.Exact.accounted tmpExact rest

omit [DecidableEq τ] in
/-- With all threads done nothing is kept. -/
theorem Sound.items_eq_zero {s : GlobalQuarantine τ} (sound : s.Sound word)
    (done : ∀ t, (s.thread t).closed = true ∧ (s.thread t).phase = .idle) : s.items = 0 := by
  have global : s.cache.list = [] := by
    apply sound.emptied
    intro t
    refine ⟨(done t).1, ?_⟩
    simp [Pending, (done t).2]
  have own : ∀ t, (s.thread t).items = 0 := by
    intro t
    have flushed := (sound.thread t).flushed (done t).1 (by simp [(done t).2])
    unfold Thread.items QuarantineCache.items
    rw [flushed, (done t).2]
    rfl
  unfold items QuarantineCache.items
  rw [Finset.sum_eq_zero fun t _ => own t, global]
  rfl

end GlobalQuarantine

/-- What holds of a quarantine at any time. -/
structure Conserves {τ : Type*} [Fintype τ] (word : WordSize) (s : GlobalQuarantine τ) : Prop where
  chunks : s.puts = s.recycled + s.quarantined + s.extracted
  recycledOnce : s.recycled ≤ s.puts
  deallocatedOnce : s.deallocated ≤ s.allocated
  sizes : ∀ c, s.HasCache c → c.Accounted word
  extraction : ∀ minSize, ∃ cache tmp,
    s.cache.extractForRecycle word minSize = some (cache, tmp) ∧ cache.size ≤ minSize
  done : (∀ t, (s.thread t).closed = true ∧ (s.thread t).phase = .idle) →
    s.recycled = s.puts ∧ s.deallocated = s.allocated

/-- In every interleaving chunks and batches are conserved, every size is exact, no extraction
runs out of batches, and after a last `drainAndRecycle` of each thread everything has been
recycled and deallocated once. -/
theorem quarantine_conserves {τ : Type*} [Fintype τ] [DecidableEq τ] {word : WordSize}
    {limits : Limits} {s : GlobalQuarantine τ}
    (reached : (GlobalQuarantine.system word limits).Reachable s) : Conserves word s := by
  have sound := GlobalQuarantine.reachable_sound reached
  have chunks := congrArg chunksOf sound.conserved
  have batches := congrArg batchesOf sound.conserved
  simp only [GlobalQuarantine.entered, GlobalQuarantine.left, map_add, chunksOf_map_chunk,
    chunksOf_map_batch, batchesOf_map_chunk, batchesOf_map_batch, add_zero, zero_add] at chunks batches
  have total := chunks
  rw [GlobalQuarantine.chunksOf_items, ← add_assoc] at total
  apply Conserves.mk total
  · rw [chunks]
    exact Multiset.le_add_right _ _
  · rw [batches]
    exact Multiset.le_add_right _ _
  · exact fun c has => sound.accounted has
  · intro minSize
    obtain ⟨cache, tmp, run, _, _, _, below⟩ :=
      QuarantineCache.extractForRecycle_spec minSize sound.cache sound.cache_size_lt
    exact ⟨cache, tmp, run, below⟩
  · intro done
    rw [sound.items_eq_zero done, map_zero, add_zero] at chunks batches
    exact ⟨chunks.symm, batches.symm⟩

namespace GlobalQuarantine

variable {τ : Type*} [Fintype τ] [DecidableEq τ] (word : WordSize) (limits : Limits)

/-- What may be done next: a call of a thread, or the step that a thread in a call takes, which needs a
seed where it shuffles. -/
inductive Move (τ : Type*)
  | put (t : τ) (chunk : Chunk) (addr : Nat)
  | drainAndRecycle (t : τ) (last : Bool)
  | goOn (t : τ) (seed : UInt32)

/-- The step of a thread in a call, if it can take one. -/
def goOn (s : GlobalQuarantine τ) (t : τ) (seed : UInt32) : GlobalQuarantine τ :=
  let th := s.thread t
  let transferred := s.cache.transfer word th.cache
  match th.phase with
  | .idle => s
  | .draining =>
    { s.setThread t { th with
        cache := QuarantineCache.empty
        phase := if limits.maxSize < transferred.size then .trying else .idle } with
      cache := transferred }
  | .trying =>
    if s.recycleMutex = none then
      { s.setThread t { th with phase := .extracting limits.minSize } with recycleMutex := some t }
    else s.setThread t { th with phase := .idle }
  | .flushing =>
    { s.setThread t { th with cache := QuarantineCache.empty, phase := .locking } with
      cache := transferred }
  | .locking =>
    if s.recycleMutex = none then
      { s.setThread t { th with phase := .extracting 0 } with recycleMutex := some t }
    else s
  | .extracting minSize =>
    match s.cache.extractForRecycle word minSize with
    | none => s
    | some (cache, tmp) => { s.setThread t { th with phase := .unlocking tmp } with cache := cache }
  | .unlocking tmp =>
    { s.setThread t { th with phase := .recycling tmp none } with recycleMutex := none }
  | .recycling tmp none =>
    match tmp.dequeueBatch word with
    | (none, _) => s.setThread t { th with phase := .idle }
    | (some b, tmp') =>
      s.setThread t { th with phase := .recycling tmp' (some ⟨b.addr, shuffle b.batch seed⟩) }
  | .recycling tmp (some ⟨addr, []⟩) =>
    { s.setThread t { th with phase := .recycling tmp none } with
      deallocated := addr ::ₘ s.deallocated }
  | .recycling tmp (some ⟨addr, chunk :: rest⟩) =>
    { s.setThread t { th with phase := .recycling tmp (some ⟨addr, rest⟩) } with
      recycled := chunk ::ₘ s.recycled }

def move (s : GlobalQuarantine τ) : Move τ → GlobalQuarantine τ
  | .put t chunk addr =>
    let th := s.thread t
    let cache := th.cache.enqueue word addr chunk
    if th.phase = .idle ∧ th.closed = false ∧
        weight word (s.items + th.cache.entering addr chunk) < 2 ^ word.bits then
      { s.setThread t { th with
          cache := cache
          phase := if limits.maxCacheSize < cache.size then .draining else .idle } with
        puts := chunk ::ₘ s.puts
        allocated := if th.cache.needsBatch then addr ::ₘ s.allocated else s.allocated }
    else s
  | .drainAndRecycle t last =>
    let th := s.thread t
    if th.phase = .idle ∧ th.closed = false then
      s.setThread t { th with phase := .flushing, closed := last }
    else s
  | .goOn t seed => s.goOn word limits t seed

def play (moves : List (Move τ)) (s : GlobalQuarantine τ) : GlobalQuarantine τ :=
  moves.foldl (fun s move => s.move word limits move) s

variable {word limits} {s : GlobalQuarantine τ}

/-- A move is a step, or cannot be made. -/
theorem goOn_step (s : GlobalQuarantine τ) (t : τ) (seed : UInt32) :
    s.goOn word limits t seed = s ∨ Step word limits s (s.goOn word limits t seed) := by
  unfold goOn
  dsimp only
  split
  · exact Or.inl rfl
  · next draining => exact Or.inr (.drain t _ rfl draining)
  · next trying =>
    split_ifs with free
    · exact Or.inr (.tryLock t _ rfl trying free)
    · exact Or.inr (.tryLockFails t _ rfl trying free)
  · next flushing => exact Or.inr (.flush t _ rfl flushing)
  · next locking =>
    split_ifs with free
    · exact Or.inr (.lock t _ rfl locking free)
    · exact Or.inl rfl
  · next minSize extracting =>
    split
    · exact Or.inl rfl
    · next cache tmp run => exact Or.inr (.extract t _ rfl minSize extracting cache tmp run)
  · next tmp unlocking => exact Or.inr (.unlock t _ rfl tmp unlocking)
  · next tmp recycling =>
    split
    · next tmp' run => exact Or.inr (.finish t _ rfl tmp tmp' recycling run)
    · next b tmp' run => exact Or.inr (.dequeue t _ rfl tmp tmp' recycling b run seed)
  · next tmp addr recycling => exact Or.inr (.deallocate t _ rfl tmp addr recycling)
  · next tmp addr chunk rest recycling =>
    exact Or.inr (.recycle t _ rfl tmp addr chunk rest recycling)

theorem move_step (s : GlobalQuarantine τ) (m : Move τ) :
    s.move word limits m = s ∨ Step word limits s (s.move word limits m) := by
  cases m with
  | put t chunk addr =>
    unfold move
    dsimp only
    split
    · next ready => exact Or.inr (.put t _ rfl ready.1 ready.2.1 chunk addr ready.2.2)
    · exact Or.inl rfl
  | drainAndRecycle t last =>
    unfold move
    dsimp only
    split_ifs with ready
    · exact Or.inr (.callDrainAndRecycle t _ rfl ready.1 ready.2 last)
    · exact Or.inl rfl
  | goOn t seed => exact goOn_step s t seed

theorem reachable_play (word : WordSize) (limits : Limits) (moves : List (Move τ))
    (reached : (system word limits).Reachable s) :
    (system word limits).Reachable (s.play word limits moves) := by
  unfold play
  induction moves generalizing s with
  | nil => exact reached
  | cons m rest ih =>
    rw [List.foldl_cons]
    apply ih
    rcases move_step s m with same | step
    · rw [same]
      exact reached
    · exact reached.step step

end GlobalQuarantine

/-- Two threads put one address three times. The last `put` merges the three batches, two of which are
freed before it ends; then both threads finish. -/
def samePuts : List (GlobalQuarantine.Move Bool) :=
  [.put true ⟨4096, 32⟩ 8192, .goOn true 0, .put false ⟨4096, 32⟩ 16384, .goOn false 0,
    .put true ⟨4096, 32⟩ 24576] ++ List.replicate 8 (.goOn true 7)

def samePutsEnd : List (GlobalQuarantine.Move Bool) :=
  [.drainAndRecycle false true] ++ List.replicate 10 (.goOn false 5) ++
    [.drainAndRecycle true true] ++ List.replicate 10 (.goOn true 5)

/-- After the merge the two batches are freed and nothing is recycled; at the end everything is. -/
theorem quarantine_conserves_merged : ∃ s s' : GlobalQuarantine Bool,
    s.deallocated = {16384, 24576} ∧ s.recycled = 0 ∧ s.cache.size = 8272 ∧
      Conserves .w64 s ∧ s'.puts = {⟨4096, 32⟩, ⟨4096, 32⟩, ⟨4096, 32⟩} ∧ s'.recycled = s'.puts ∧
      s'.deallocated = {8192, 16384, 24576} ∧ Conserves .w64 s' := by
  have merged := GlobalQuarantine.reachable_play .w64 ⟨20000, 18000, 8000⟩ samePuts (.init rfl)
  have ended := GlobalQuarantine.reachable_play .w64 ⟨20000, 18000, 8000⟩ samePutsEnd merged
  exact ⟨_, _, by decide +kernel, by decide +kernel, by decide +kernel, quarantine_conserves merged,
    by decide +kernel, by decide +kernel, by decide +kernel, quarantine_conserves ended⟩

end Scudo.Quarantine
