import Mathlib.Logic.Relation
import Scudo.Lib.Transition
import Scudo.SharedArena.Log

/-!
One log ring between two resets: the producer goes through `appendLogPagesLocked` one memory
operation at a time, and the consumer loads the tail, reads slots and moves the head at any
point in between.
-/

namespace Scudo.SharedArena
open Scudo.Lib

namespace Arena

def tailSlot (arena : Arena) : Nat := arena.logTailCache &&& arena.logCapacityMask

def writeSlot (arena : Arena) (value : Option SharedArenaLogEntry) : Arena :=
  { arena with logRing := { arena.logRing with
      entries := Function.update arena.logRing.entries arena.tailSlot value } }

def storeTail (arena : Arena) : Arena :=
  { arena with logRing := { arena.logRing with tail := wrap 32 (arena.logTailCache + 1) } }

def storeTailCache (arena : Arena) : Arena :=
  { arena with logTailCache := wrap 32 (arena.logTailCache + 1) }

def loadHead (arena : Arena) : Arena := { arena with logHeadCache := arena.logRing.head }

def countDropped (arena : Arena) : Arena :=
  { arena with logRing := { arena.logRing with dropped := wrap 32 (arena.logRing.dropped + 1) } }

def moveHead (arena : Arena) (count : Nat) : Arena :=
  { arena with logRing := { arena.logRing with head := wrap 32 (arena.logRing.head + count) } }

theorem publishLogEntry_eq (arena : Arena) (entry : SharedArenaLogEntry) :
    arena.publishLogEntry entry = ((arena.writeSlot (some entry)).storeTail).storeTailCache := rfl

end Arena

/-- Where the producer stands in `appendLogPagesLocked`. -/
inductive Producer
  | idle
  /-- the cached head shows a full ring -/
  | load (entry : SharedArenaLogEntry)
  /-- the first load showed a full ring too, and the producer has yielded -/
  | loadAgain (entry : SharedArenaLogEntry)
  /-- a slot is free -/
  | write (entry : SharedArenaLogEntry)
  | publish (entry : SharedArenaLogEntry)
  | finish
  deriving DecidableEq, Repr

/-- The ring with its two parties. The consumer keeps the tail it loaded last and the position
it reads next. `appended` and `received` record what went in and what came out. -/
structure RingWorld where
  arena : Arena
  producer : Producer
  returned : Option Bool
  seenTail : Nat
  readPos : Nat
  appended : List SharedArenaLogEntry
  received : List (Option SharedArenaLogEntry)

namespace RingWorld

/-- After `initLogRing`. -/
structure Initial (page : PageSize) (w : RingWorld) : Prop where
  arena : ∃ totalDataPages before, w.arena = (Arena.initLogRing page true totalDataPages before).2
  producer : w.producer = .idle
  returned : w.returned = none
  seenTail : w.seenTail = 0
  readPos : w.readPos = 0
  appended : w.appended = []
  received : w.received = []

/-- The entry that a call writes. -/
def entryOf (page : PageSize) (op : SharedArenaLogOp) (srcCpu startPage commitSize flags : Nat) :
    SharedArenaLogEntry :=
  ⟨op, srcCpu, flags, startPage, wrap 32 (commitSize / page.bytes)⟩

/-- One memory operation of the producer or of the consumer. A call with an empty or unaligned
range returns before it looks at the ring and is no step. -/
inductive Step (page : PageSize) (env : EnvCache) : RingWorld → RingWorld → Prop
  | bypass {w : RingWorld} (idle : w.producer = .idle) (noKernel : env.allowNoKernel = true) :
      Step page env w { w with returned := some true }
  | unset {w : RingWorld} (idle : w.producer = .idle) (kernel : env.allowNoKernel = false)
      (unset : w.arena.logCapacityCache = 0) :
      Step page env w { w with returned := some false }
  | start {w : RingWorld} (op : SharedArenaLogOp) (srcCpu startPage commitSize flags : Nat)
      (idle : w.producer = .idle) (kernel : env.allowNoKernel = false)
      (valid : ¬(commitSize = 0 ∨ isAligned commitSize page.bytes = false))
      (capacity : w.arena.logCapacityCache ≠ 0) :
      Step page env w { w with
        returned := none
        producer := if w.arena.logFull w.arena.logHeadCache then
            .load (entryOf page op srcCpu startPage commitSize flags)
          else .write (entryOf page op srcCpu startPage commitSize flags) }
  | load {w : RingWorld} (entry : SharedArenaLogEntry) (phase : w.producer = .load entry) :
      Step page env w { w with
        arena := w.arena.loadHead
        producer := if w.arena.logFull w.arena.logRing.head then .loadAgain entry
          else .write entry }
  | loadAgain {w : RingWorld} (entry : SharedArenaLogEntry)
      (phase : w.producer = .loadAgain entry)
      (room : w.arena.logFull w.arena.logRing.head = false) :
      Step page env w { w with arena := w.arena.loadHead, producer := .write entry }
  | refuse {w : RingWorld} (entry : SharedArenaLogEntry) (phase : w.producer = .loadAgain entry)
      (full : w.arena.logFull w.arena.logRing.head = true) :
      Step page env w { w with
        arena := w.arena.loadHead.countDropped
        producer := .idle
        returned := some false }
  -- the fields are stored one after the other, so the slot may hold anything in between
  | tear {w : RingWorld} (entry : SharedArenaLogEntry) (value : Option SharedArenaLogEntry)
      (phase : w.producer = .write entry) :
      Step page env w { w with arena := w.arena.writeSlot value }
  | write {w : RingWorld} (entry : SharedArenaLogEntry) (phase : w.producer = .write entry) :
      Step page env w { w with
        arena := w.arena.writeSlot (some entry), producer := .publish entry }
  | publish {w : RingWorld} (entry : SharedArenaLogEntry) (phase : w.producer = .publish entry) :
      Step page env w { w with
        arena := w.arena.storeTail, producer := .finish, appended := w.appended ++ [entry] }
  | finish {w : RingWorld} (phase : w.producer = .finish) :
      Step page env w { w with
        arena := w.arena.storeTailCache, producer := .idle, returned := some true }
  | seeTail {w : RingWorld} : Step page env w { w with seenTail := w.arena.logRing.tail }
  | read {w : RingWorld} (more : w.readPos ≠ w.seenTail) :
      Step page env w { w with
        readPos := wrap 32 (w.readPos + 1)
        received := w.received ++
          [w.arena.logRing.entries (w.readPos &&& w.arena.logCapacityMask)] }
  | advance {w : RingWorld} (count : Nat)
      (reached : count ≤ wsub 32 w.readPos w.arena.logRing.head) :
      Step page env w { w with arena := w.arena.moveHead count }

def system (page : PageSize) (env : EnvCache) : System RingWorld := ⟨Initial page, Step page env⟩

section Alone

variable {page : PageSize} {env : EnvCache} {w : RingWorld}

/-- From a free slot the producer writes, publishes and returns true. -/
theorem append_tail {entry : SharedArenaLogEntry} (phase : w.producer = .write entry) :
    Relation.ReflTransGen (Step page env) w
      { w with
        arena := w.arena.publishLogEntry entry
        producer := .idle
        returned := some true
        appended := w.appended ++ [entry] } := by
  rw [Arena.publishLogEntry_eq]
  have written : Relation.ReflTransGen (Step page env) w
      { w with arena := w.arena.writeSlot (some entry), producer := .publish entry } :=
    Relation.ReflTransGen.single (Step.write entry phase)
  exact (written.tail (Step.publish entry rfl)).tail (Step.finish rfl)

/-- A call that no consumer step interrupts does what `appendLogPagesLocked` computes. -/
theorem append_alone (idle : w.producer = .idle) (op : SharedArenaLogOp)
    (srcCpu startPage commitSize flags : Nat)
    (valid : ¬(commitSize = 0 ∨ isAligned commitSize page.bytes = false))
    (capacity : w.arena.logCapacityCache ≠ 0) :
    ∃ w', Relation.ReflTransGen (Step page env) w w' ∧ w'.producer = .idle ∧
      w'.arena = (w.arena.appendLogPagesLocked env page
        ⟨w.arena.logRing.head, w.arena.logRing.head⟩ op srcCpu startPage commitSize flags).arena ∧
      w'.returned = some (w.arena.appendLogPagesLocked env page
        ⟨w.arena.logRing.head, w.arena.logRing.head⟩ op srcCpu startPage commitSize flags).ok := by
  unfold Arena.appendLogPagesLocked
  by_cases noKernel : env.allowNoKernel = true
  · rw [if_pos noKernel]
    exact ⟨_, Relation.ReflTransGen.single (Step.bypass idle noKernel), idle, rfl, rfl⟩
  · have kernel : env.allowNoKernel = false := by simpa using noKernel
    rw [if_neg noKernel, if_neg valid, if_neg capacity]
    have start := Step.start op srcCpu startPage commitSize flags idle kernel valid capacity
    unfold Arena.refreshLogHead
    by_cases stale : w.arena.logFull w.arena.logHeadCache = true
    · rw [if_pos stale] at start ⊢
      have load := @Step.load page env
        { w with
          returned := none
          producer := .load (entryOf page op srcCpu startPage commitSize flags) }
        (entryOf page op srcCpu startPage commitSize flags) rfl
      by_cases full : w.arena.logFull w.arena.logRing.head = true
      · have fullAfter : Arena.logFull { w.arena with logHeadCache := w.arena.logRing.head }
            w.arena.logRing.head = true := full
        simp only [full, if_true] at load
        simp only [fullAfter, if_true]
        exact ⟨_, ((Relation.ReflTransGen.single start).tail load).tail (Step.refuse _ rfl full),
          rfl, rfl, rfl⟩
      · have roomAfter : ¬Arena.logFull { w.arena with logHeadCache := w.arena.logRing.head }
            w.arena.logRing.head = true := full
        simp only [full, if_false, Bool.false_eq_true] at load
        simp only [roomAfter, if_false, Bool.false_eq_true]
        exact ⟨_, ((Relation.ReflTransGen.single start).tail load).trans (append_tail rfl), rfl,
          rfl, rfl⟩
    · rw [if_neg stale] at start ⊢
      exact ⟨_, (Relation.ReflTransGen.single start).trans (append_tail rfl), rfl, rfl, rfl⟩

end Alone

/-- What the phase of the producer adds, given the number of published entries and the limit
up to which the cached head lets it go. -/
def ProducerOk (arena : Arena) (capacity published limit : Nat) : Producer → Prop
  | .idle | .load _ | .loadAgain _ => arena.logTailCache = wrap 32 published
  | .write _ => arena.logTailCache = wrap 32 published ∧ published < limit
  | .publish entry =>
      arena.logTailCache = wrap 32 published ∧ published < limit ∧
        arena.logRing.entries (published % capacity) = some entry
  | .finish => wrap 32 (arena.logTailCache + 1) = wrap 32 published

/-- The counters in memory are unbounded counters taken modulo `2 ^ 32`. `cached` is the head
as the producer knows it, `consumed` the head itself and `seen` the tail as the consumer
knows it. -/
structure Counts (capacity : Nat) (w : RingWorld) (cached consumed seen : Nat) : Prop where
  capacity_eq : w.arena.logCapacityCache = capacity
  mask_eq : w.arena.logCapacityMask = capacity - 1
  head : w.arena.logRing.head = wrap 32 consumed
  tail : w.arena.logRing.tail = wrap 32 w.appended.length
  headCache : w.arena.logHeadCache = wrap 32 cached
  seenTail : w.seenTail = wrap 32 seen
  readPos : w.readPos = wrap 32 w.received.length
  cached_le : cached ≤ consumed
  consumed_le : consumed ≤ w.received.length
  received_le : w.received.length ≤ seen
  seen_le : seen ≤ w.appended.length
  room : w.appended.length ≤ cached + capacity
  slots : ∀ i, consumed ≤ i → i < w.appended.length →
    w.arena.logRing.entries (i % capacity) = w.appended[i]?
  received : w.received = (w.appended.take w.received.length).map some
  producer : ProducerOk w.arena capacity w.appended.length (cached + capacity) w.producer

section Invariant

variable {page : PageSize} {env : EnvCache} {w w' : RingWorld} {k cached consumed seen : Nat}

/-- The occupancy that the producer computes from any head it may know. -/
theorem Counts.logFull_iff (counts : Counts (2 ^ k) w cached consumed seen) (small : k < 32)
    (tailCache : w.arena.logTailCache = wrap 32 w.appended.length) {known : Nat}
    (le : known ≤ w.appended.length) (close : w.appended.length ≤ known + 2 ^ k) :
    w.arena.logFull (wrap 32 known) = true ↔ known + 2 ^ k ≤ w.appended.length := by
  have power : 2 ^ k < 2 ^ 32 := Nat.pow_lt_pow_right (by decide) small
  unfold Arena.logFull
  rw [tailCache, counts.capacity_eq, wsub_wrap le (by omega), decide_eq_true_eq]
  omega

theorem mod_ne_of_close {i n capacity : Nat} (lt : i < n) (close : n < i + capacity) :
    i % capacity ≠ n % capacity := by
  intro same
  have divides : capacity ∣ n - i :=
    Nat.dvd_of_mod_eq_zero (Nat.sub_mod_eq_zero_of_mod_eq same.symm)
  have bound := Nat.le_of_dvd (by omega) divides
  omega

/-- The slot the producer writes to holds no entry that the consumer has yet to read. -/
theorem Counts.writeSlot (counts : Counts (2 ^ k) w cached consumed seen) (small : k ≤ 32)
    (tailCache : w.arena.logTailCache = wrap 32 w.appended.length)
    (free : w.appended.length < cached + 2 ^ k) (value : Option SharedArenaLogEntry) :
    (∀ i, consumed ≤ i → i < w.appended.length →
      (w.arena.writeSlot value).logRing.entries (i % 2 ^ k) = w.appended[i]?) ∧
      (w.arena.writeSlot value).logRing.entries (w.appended.length % 2 ^ k) = value := by
  have slot : w.arena.tailSlot = w.appended.length % 2 ^ k := by
    unfold Arena.tailSlot
    rw [tailCache, counts.mask_eq, wrap_and_mask small]
  have le := counts.cached_le
  unfold Arena.writeSlot
  simp only [slot]
  refine ⟨?_, by simp⟩
  intro i above below
  rw [Function.update_of_ne (mod_ne_of_close below (by omega))]
  exact counts.slots i above below

/-- A full ring leaves the producer where it is, any other lets it write. -/
theorem Counts.producerOk_of_check (counts : Counts (2 ^ k) w cached consumed seen) (small : k < 32)
    (tailCache : w.arena.logTailCache = wrap 32 w.appended.length) {known : Nat}
    (le : known ≤ w.appended.length) (close : w.appended.length ≤ known + 2 ^ k)
    (notFull : w.arena.logFull (wrap 32 known) = false) : w.appended.length < known + 2 ^ k := by
  by_contra full
  have isFull := (counts.logFull_iff small tailCache le close).mpr (Nat.le_of_not_lt full)
  rw [notFull] at isFull
  cases isFull

/-- What the producer does keeps the counts. -/
theorem Counts.load (counts : Counts (2 ^ k) w cached consumed seen) (producer : Producer)
    (ok : ProducerOk w.arena (2 ^ k) w.appended.length (consumed + 2 ^ k) producer) :
    Counts (2 ^ k) { w with arena := w.arena.loadHead, producer := producer }
      consumed consumed seen :=
  { counts with
    headCache := counts.head
    cached_le := le_rfl
    room := counts.room.trans (Nat.add_le_add_right counts.cached_le _)
    producer := by cases producer <;> exact ok }

theorem Counts.step (counts : Counts (2 ^ k) w cached consumed seen) (small : k < 32)
    (step : Step page env w w') :
    ∃ cached' consumed' seen', Counts (2 ^ k) w' cached' consumed' seen' := by
  have published := counts.received_le.trans counts.seen_le
  have behind := counts.consumed_le.trans published
  have room := counts.room
  have cachedLe := counts.cached_le
  have producer := counts.producer
  have power : 2 ^ k < 2 ^ 32 := Nat.pow_lt_pow_right (by decide) small
  cases step with
  | bypass idle noKernel => exact ⟨cached, consumed, seen, { counts with }⟩
  | unset idle kernel unset => exact ⟨cached, consumed, seen, { counts with }⟩
  | start op srcCpu startPage commitSize flags idle kernel valid capacity =>
    rw [idle] at producer
    refine ⟨cached, consumed, seen, { counts with producer := ?_ }⟩
    cases full : w.arena.logFull w.arena.logHeadCache with
    | true => exact producer
    | false =>
      rw [counts.headCache] at full
      exact ⟨producer, counts.producerOk_of_check small producer (by omega) room full⟩
  | load entry phase =>
    rw [phase] at producer
    refine ⟨consumed, consumed, seen, counts.load _ ?_⟩
    cases full : w.arena.logFull w.arena.logRing.head with
    | true => exact producer
    | false =>
      rw [counts.head] at full
      exact ⟨producer, counts.producerOk_of_check small producer behind (by omega) full⟩
  | loadAgain entry phase notFull =>
    rw [phase] at producer
    rw [counts.head] at notFull
    exact ⟨consumed, consumed, seen, counts.load _
      ⟨producer, counts.producerOk_of_check small producer behind (by omega) notFull⟩⟩
  | refuse entry phase full =>
    rw [phase] at producer
    exact ⟨consumed, consumed, seen, { counts.load .idle producer with }⟩
  | tear entry value phase =>
    rw [phase] at producer
    obtain ⟨slots, _⟩ := counts.writeSlot small.le producer.1 producer.2 value
    exact ⟨cached, consumed, seen, { counts with slots := slots, producer := phase ▸ producer }⟩
  | write entry phase =>
    rw [phase] at producer
    obtain ⟨slots, own⟩ := counts.writeSlot small.le producer.1 producer.2 (some entry)
    exact ⟨cached, consumed, seen,
      { counts with slots := slots, producer := ⟨producer.1, producer.2, own⟩ }⟩
  | publish entry phase =>
    rw [phase] at producer
    obtain ⟨tailCache, free, own⟩ := producer
    have tail : wrap 32 (w.arena.logTailCache + 1) = wrap 32 (w.appended ++ [entry]).length := by
      rw [tailCache, wrap_succ, List.length_append]
      rfl
    refine ⟨cached, consumed, seen, { counts with
      tail := tail
      seen_le := ?_
      room := ?_
      slots := ?_
      received := ?_
      producer := tail }⟩
    · simp only [List.length_append, List.length_singleton]
      exact counts.seen_le.trans (Nat.le_succ _)
    · simp only [List.length_append, List.length_singleton]
      omega
    · intro i above below
      rw [List.length_append, List.length_singleton] at below
      by_cases last : i = w.appended.length
      · subst last
        exact own.trans List.getElem?_concat_length.symm
      · rw [List.getElem?_append_left (by omega)]
        exact counts.slots i above (by omega)
    · rw [List.take_append_of_le_length published]
      exact counts.received
  | finish phase =>
    rw [phase] at producer
    exact ⟨cached, consumed, seen, { counts with producer := producer }⟩
  | seeTail =>
    exact ⟨cached, consumed, w.appended.length,
      { counts with seenTail := counts.tail, received_le := published, seen_le := le_rfl }⟩
  | read more =>
    have unread : w.received.length < seen := by
      apply Nat.lt_of_le_of_ne counts.received_le
      intro same
      rw [counts.readPos, counts.seenTail, same] at more
      exact more rfl
    have inside : w.received.length < w.appended.length := unread.trans_le counts.seen_le
    have slot : w.arena.logRing.entries (w.readPos &&& w.arena.logCapacityMask) =
        some w.appended[w.received.length] := by
      rw [counts.readPos, counts.mask_eq, wrap_and_mask small.le,
        counts.slots _ counts.consumed_le inside, List.getElem?_eq_getElem inside]
    refine ⟨cached, consumed, seen, { counts with
      readPos := ?_
      consumed_le := ?_
      received_le := ?_
      received := ?_ }⟩
    · rw [counts.readPos, wrap_succ, List.length_append]
      rfl
    · rw [List.length_append]
      exact counts.consumed_le.trans (Nat.le_succ _)
    · rw [List.length_append]
      exact unread
    · simp only [slot, List.length_append, List.length_singleton]
      rw [List.take_succ_eq_append_getElem inside, List.map_append, ← counts.received]
      rfl
  | advance count reached =>
    have distance : count ≤ w.received.length - consumed := by
      rwa [counts.readPos, counts.head, wsub_wrap counts.consumed_le (by omega)] at reached
    have head : wrap 32 (w.arena.logRing.head + count) = wrap 32 (consumed + count) := by
      rw [counts.head, wrap_add]
    refine ⟨cached, consumed + count, seen, { counts with
      head := head
      cached_le := cachedLe.trans (Nat.le_add_right _ _)
      consumed_le := ?_
      slots := ?_
      producer := ?_ }⟩
    · have le := counts.consumed_le
      change consumed + count ≤ w.received.length
      omega
    · intro i above below
      exact counts.slots i (by omega) below
    · cases phase : w.producer <;> rw [phase] at producer <;> exact producer

/-- The number of entries of a ring, as a power of two. -/
def capacityBits (page : PageSize) : Nat :=
  Nat.log2 ((page.bytes - kLogRingHeaderBytes) / kLogEntryBytes)

theorem capacityBits_lt (page : PageSize) : capacityBits page < 32 := by
  have atMost := page.atMost
  have atLeast := page.atLeast
  unfold capacityBits kLogRingHeaderBytes kLogEntryBytes
  rw [Nat.log2_lt (by omega)]
  omega

theorem Initial.counts (initial : Initial page w) : Counts (2 ^ capacityBits page) w 0 0 0 := by
  obtain ⟨totalDataPages, before, arena⟩ := initial.arena
  have atLeast := page.atLeast
  have mapped : ¬page.bytes ≤ kLogRingHeaderBytes := by
    unfold kLogRingHeaderBytes
    omega
  have some : ¬(page.bytes - kLogRingHeaderBytes) / kLogEntryBytes = 0 := by
    unfold kLogRingHeaderBytes kLogEntryBytes
    omega
  unfold Arena.initLogRing at arena
  rw [if_neg (by simp), if_neg mapped, if_neg some] at arena
  constructor
  all_goals simp [arena, initial.producer, initial.seenTail, initial.readPos, initial.appended,
    initial.received, Arena.logRingCapacity, capacityBits, ProducerOk, wrap]

end Invariant

/-- In every state of a ring with unbounded wrapping counters some unbounded counts agree. -/
theorem reachable_counts {page : PageSize} {env : EnvCache} {w : RingWorld}
    (reached : (system page env).Reachable w) :
    ∃ cached consumed seen, Counts (2 ^ capacityBits page) w cached consumed seen := by
  apply reached.invariant
  · intro s initial
    exact ⟨0, 0, 0, Initial.counts initial⟩
  · rintro s s' ⟨cached, consumed, seen, counts⟩ step
    exact counts.step (capacityBits_lt page) step

end RingWorld

/-- The ring is a queue: it never holds more than its capacity, loses and overwrites nothing,
delivers in order, and refuses an entry only when the head just loaded shows it full. -/
theorem log_ring_correct (page : PageSize) (env : EnvCache) (w : RingWorld)
    (reached : (RingWorld.system page env).Reachable w) :
    wsub 32 w.arena.logRing.tail w.arena.logRing.head ≤ Arena.logRingCapacity page ∧
      (∃ cached consumed, cached ≤ consumed ∧ consumed ≤ w.received.length ∧
        w.received.length ≤ w.appended.length ∧
        w.appended.length ≤ cached + Arena.logRingCapacity page ∧
        w.arena.logHeadCache = wrap 32 cached ∧ w.arena.logRing.head = wrap 32 consumed ∧
        w.arena.logRing.tail = wrap 32 w.appended.length ∧
        ∀ i, consumed ≤ i → i < w.appended.length →
          w.arena.logRing.entries (i % Arena.logRingCapacity page) = w.appended[i]?) ∧
      w.received = (w.appended.take w.received.length).map some ∧
      (w.readPos = w.arena.logRing.tail → w.received = w.appended.map some) ∧
      ∀ w', RingWorld.Step page env w w' → w.returned ≠ some false → w'.returned = some false →
        (∃ entry, w.producer = .loadAgain entry) ∧
          wsub 32 w.arena.logRing.tail w.arena.logRing.head = Arena.logRingCapacity page := by
  obtain ⟨cached, consumed, seen, counts⟩ := RingWorld.reachable_counts reached
  have small := RingWorld.capacityBits_lt page
  have power : 2 ^ RingWorld.capacityBits page < 2 ^ 32 := Nat.pow_lt_pow_right (by decide) small
  have capacity : Arena.logRingCapacity page = 2 ^ RingWorld.capacityBits page := rfl
  have published := counts.received_le.trans counts.seen_le
  have behind := counts.consumed_le.trans published
  have cachedLe := counts.cached_le
  have consumedLe := counts.consumed_le
  have room := counts.room
  have occupancy : wsub 32 w.arena.logRing.tail w.arena.logRing.head =
      w.appended.length - consumed := by
    rw [counts.tail, counts.head, wsub_wrap behind (by omega)]
  rw [capacity, occupancy]
  refine ⟨by omega, ⟨cached, consumed, cachedLe, consumedLe, published, room, counts.headCache,
    counts.head, counts.tail, counts.slots⟩, counts.received, ?_, ?_⟩
  · intro caughtUp
    have all : w.received.length = w.appended.length := by
      rw [counts.readPos, counts.tail] at caughtUp
      have distance := wsub_wrap (w := 32) published (by omega)
      rw [caughtUp, wsub_eq (wrap_lt 32 _) le_rfl] at distance
      omega
    rw [counts.received, all, List.take_length]
  · intro w' step before after
    cases step with
    | refuse entry phase full =>
      have producer := counts.producer
      rw [phase] at producer
      rw [counts.head] at full
      have isFull := (counts.logFull_iff small producer behind (by omega)).mp full
      exact ⟨⟨entry, phase⟩, by omega⟩
    | bypass idle noKernel => cases after
    | unset idle kernel unset =>
      have positive := Nat.two_pow_pos (RingWorld.capacityBits page)
      have set := counts.capacity_eq
      omega
    | start op srcCpu startPage commitSize flags idle kernel valid capacity => cases after
    | finish phase => cases after
    | load entry phase => exact (before after).elim
    | loadAgain entry phase notFull => exact (before after).elim
    | tear entry value phase => exact (before after).elim
    | write entry phase => exact (before after).elim
    | publish entry phase => exact (before after).elim
    | seeTail => exact (before after).elim
    | read more => exact (before after).elim
    | advance count reached => exact (before after).elim

section Schedules

/-- What a schedule picks next: a call of the producer or its next memory operation, or an
operation of the consumer. -/
inductive RingMove
  | call (op : SharedArenaLogOp) (srcCpu startPage commitSize flags : Nat)
  | produce
  | seeTail
  | read
  | advance (count : Nat)

namespace RingWorld

variable {page : PageSize} {env : EnvCache} {w w' : RingWorld}

/-- The next memory operation of a producer that has started a call. -/
def produce (w : RingWorld) : Option RingWorld :=
  match w.producer with
  | .idle => none
  | .load entry => some { w with
      arena := w.arena.loadHead
      producer := if w.arena.logFull w.arena.logRing.head then .loadAgain entry
        else .write entry }
  | .loadAgain entry =>
      if w.arena.logFull w.arena.logRing.head then
        some { w with
          arena := w.arena.loadHead.countDropped
          producer := .idle
          returned := some false }
      else some { w with arena := w.arena.loadHead, producer := .write entry }
  | .write entry => some { w with
      arena := w.arena.writeSlot (some entry), producer := .publish entry }
  | .publish entry => some { w with
      arena := w.arena.storeTail, producer := .finish, appended := w.appended ++ [entry] }
  | .finish => some { w with
      arena := w.arena.storeTailCache, producer := .idle, returned := some true }

/-- One move; `none` when it is not possible. -/
def move (page : PageSize) (env : EnvCache) (w : RingWorld) : RingMove → Option RingWorld
  | .call op srcCpu startPage commitSize flags =>
      if w.producer = .idle ∧ env.allowNoKernel = false ∧
          ¬(commitSize = 0 ∨ isAligned commitSize page.bytes = false) ∧
          w.arena.logCapacityCache ≠ 0 then
        some { w with
          returned := none
          producer := if w.arena.logFull w.arena.logHeadCache then
              .load (entryOf page op srcCpu startPage commitSize flags)
            else .write (entryOf page op srcCpu startPage commitSize flags) }
      else none
  | .produce => w.produce
  | .seeTail => some { w with seenTail := w.arena.logRing.tail }
  | .read =>
      if w.readPos ≠ w.seenTail then
        some { w with
          readPos := wrap 32 (w.readPos + 1)
          received := w.received ++
            [w.arena.logRing.entries (w.readPos &&& w.arena.logCapacityMask)] }
      else none
  | .advance count =>
      if count ≤ wsub 32 w.readPos w.arena.logRing.head then
        some { w with arena := w.arena.moveHead count }
      else none

def moves (page : PageSize) (env : EnvCache) : RingWorld → List RingMove → Option RingWorld
  | w, [] => some w
  | w, first :: rest => (w.move page env first).bind fun w => w.moves page env rest

theorem step_of_produce (run : w.produce = some w') : Step page env w w' := by
  unfold produce at run
  cases phase : w.producer with
  | idle => simp [phase] at run
  | load entry =>
    simp only [phase, Option.some.injEq] at run
    exact run ▸ Step.load entry phase
  | loadAgain entry =>
    simp only [phase] at run
    split_ifs at run with full
    · exact Option.some.inj run ▸ Step.refuse entry phase full
    · exact Option.some.inj run ▸ Step.loadAgain entry phase (by simpa using full)
  | write entry =>
    simp only [phase, Option.some.injEq] at run
    exact run ▸ Step.write entry phase
  | publish entry =>
    simp only [phase, Option.some.injEq] at run
    exact run ▸ Step.publish entry phase
  | finish =>
    simp only [phase, Option.some.injEq] at run
    exact run ▸ Step.finish phase

theorem step_of_move {m : RingMove} (run : w.move page env m = some w') :
    Step page env w w' := by
  cases m with
  | call op srcCpu startPage commitSize flags =>
    simp only [move, Option.ite_none_right_eq_some, Option.some.injEq] at run
    obtain ⟨⟨idle, kernel, valid, capacity⟩, rfl⟩ := run
    exact Step.start op srcCpu startPage commitSize flags idle kernel valid capacity
  | produce => exact step_of_produce run
  | seeTail => exact Option.some.inj run ▸ Step.seeTail
  | read =>
    simp only [move, Option.ite_none_right_eq_some, Option.some.injEq] at run
    obtain ⟨more, rfl⟩ := run
    exact Step.read more
  | advance count =>
    simp only [move, Option.ite_none_right_eq_some, Option.some.injEq] at run
    obtain ⟨reached, rfl⟩ := run
    exact Step.advance count reached

/-- A list of moves ends in a reachable state. -/
theorem reachable_of_moves {list : List RingMove} (reached : (system page env).Reachable w)
    (run : w.moves page env list = some w') : (system page env).Reachable w' := by
  induction list generalizing w with
  | nil =>
    cases run
    exact reached
  | cons first rest ih =>
    obtain ⟨middle, step, run⟩ := Option.bind_eq_some_iff.mp run
    exact ih (reached.step (step_of_move step)) run

end RingWorld

end Schedules

/-- A ring of 4 KB, which has 256 entries, as `initLogRing` leaves it. -/
def emptyRing : RingWorld :=
  ⟨(Arena.initLogRing PageSize.small true 131071 ⟨true, 0, baseAddrOf 0, dataBaseOf 0,
    ⟨0, 0, 0, 0, 0, 0, 0, 0, 0, fun _ => none⟩, 0, 0, 0, 0⟩).2, .idle, none, 0, 0, [], []⟩

/-- 256 appends; the consumer reads three entries but keeps their slots; one more append is
about to be refused. -/
def refusedMoves : List RingMove :=
  ((List.range 256).map fun i => [RingMove.call .alloc 0 i 4096 0, .produce, .produce,
    .produce]).flatten ++ [.seeTail, .read, .read, .read, .call .free 0 256 4096 0, .produce]

/-- The refusal; the consumer gives two slots back, and the next append takes one of them. -/
def acceptedMoves : List RingMove :=
  [.produce, .advance 2, .call .free 0 257 4096 0, .produce, .produce, .produce, .produce]

/-- A full ring refuses an entry, and takes one as soon as the consumer has made room. -/
theorem log_ring_correct_refusal :
    ∃ w w' w'', emptyRing.moves PageSize.small ⟨false, false⟩ refusedMoves = some w ∧
      w.move PageSize.small ⟨false, false⟩ .produce = some w' ∧ w'.returned = some false ∧
      wsub 32 w.arena.logRing.tail w.arena.logRing.head = 256 ∧
      w.moves PageSize.small ⟨false, false⟩ acceptedMoves = some w'' ∧
      w''.appended.length = 257 ∧ w''.received = (w''.appended.take 3).map some ∧
      wsub 32 w''.arena.logRing.tail w''.arena.logRing.head ≤ 256 := by
  obtain ⟨w, run⟩ := Option.isSome_iff_exists.mp (show (emptyRing.moves PageSize.small
    ⟨false, false⟩ refusedMoves).isSome = true by decide +kernel)
  have shape : (emptyRing.moves PageSize.small ⟨false, false⟩ refusedMoves).all (fun w =>
      w.returned = none ∧
      (w.move PageSize.small ⟨false, false⟩ .produce).map RingWorld.returned =
        some (some false) ∧
      (w.moves PageSize.small ⟨false, false⟩ acceptedMoves).map
        (fun w => (w.appended.length, w.received.length)) = some (257, 3)) = true := by
    decide +kernel
  rw [run, Option.all_some, decide_eq_true_eq] at shape
  obtain ⟨pending, refused, accepted⟩ := shape
  obtain ⟨w', move, returned⟩ := Option.map_eq_some_iff.mp refused
  obtain ⟨w'', rest, lengths⟩ := Option.map_eq_some_iff.mp accepted
  obtain ⟨appended, received⟩ := Prod.mk.inj lengths
  have empty : (RingWorld.system PageSize.small ⟨false, false⟩).Reachable emptyRing :=
    System.Reachable.init ⟨⟨131071, _, rfl⟩, rfl, rfl, rfl, rfl, rfl, rfl⟩
  have reached := RingWorld.reachable_of_moves empty run
  obtain ⟨_, _, _, _, refusal⟩ := log_ring_correct PageSize.small ⟨false, false⟩ w reached
  obtain ⟨_, full⟩ := refusal w' (RingWorld.step_of_move move) (by simp [pending]) returned
  obtain ⟨occupancy, _, inOrder, _⟩ := log_ring_correct PageSize.small ⟨false, false⟩ w''
    (RingWorld.reachable_of_moves reached rest)
  rw [received] at inOrder
  have capacity : Arena.logRingCapacity PageSize.small = 256 := by decide +kernel
  rw [capacity] at full occupancy
  exact ⟨w, w', w'', run, move, returned, full, rest, appended, inOrder, occupancy⟩

end Scudo.SharedArena
