import Scudo.Lib.Threads
import Scudo.Lib.Transition
import Scudo.Common

/-!
Refilling the free list of one region of `SizeClassAllocator64` with a condition variable:
`popBlocksWithCV`, the callers of `notifyAll`, and `ConditionVariableLinux`. A critical section
under `FLLock` is one step, except for `notifyAllImpl`, whose store to `Counter` and whose wake are
seen by threads that do not have the lock. Of the free list only its length is kept, so that
`mergeGroupsToReleaseBack`, which adds blocks and calls `notifyAll` under the lock, is here what
`pushBlocks` is.
-/

namespace Scudo.Primary
open Scudo.Lib

/-- Where a thread is. -/
inductive RefillPc where
  | outside
  /-- At the top of the loop of `popBlocksWithCV`. -/
  | claiming
  /-- Between its claim and the end of its attempt, and from there to its reset. -/
  | populating
  | resetting (popCount : Nat)
  /-- After another thread's claim. -/
  | popping
  /-- In `waitImpl`, which wrote `v` as the increment number `turn`: before `FUTEX_WAIT`, in it,
  and before it has the lock again. -/
  | waiting (v turn : Nat)
  | asleep (v turn : Nat)
  | relocking (turn : Nat)
  /-- In `notifyAll`, called by `popBlocksWithCV` with its result, or after blocks were pushed. -/
  | notifying (popCount : Option Nat)
  | returned (popCount : Nat)
  deriving DecidableEq, Repr

namespace RefillPc

/-- Not in a call. -/
def Idle (pc : RefillPc) : Prop := pc = outside ∨ ∃ popCount, pc = returned popCount

/-- Between the claim and the reset. -/
def Populating (pc : RefillPc) : Prop := pc = populating ∨ ∃ popCount, pc = resetting popCount

/-- The result is 0. -/
def Empty (pc : RefillPc) : Prop := pc = resetting 0 ∨ pc = notifying (some 0) ∨ pc = returned 0

/-- The increment number of a `wait` that has not returned. -/
def turn? : RefillPc → Option Nat
  | waiting _ turn => some turn
  | asleep _ turn => some turn
  | relocking turn => some turn
  | _ => none

/-- What `FUTEX_WAKE` does to a thread. -/
def wake : RefillPc → RefillPc
  | asleep _ turn => relocking turn
  | pc => pc

end RefillPc

/-- How far `notifyAllImpl` is: before the store to `Counter`, before the wake, and before the
store to `LastNotifyAll`. -/
inductive NotifyStage where
  | entered
  | stored (v : Nat)
  | woken (v : Nat)
  deriving DecidableEq, Repr

/-- What came of an attempt to populate the free list. -/
inductive Attempt where
  | exhausted
  | failed
  | populated
  deriving DecidableEq, Repr

/-- A region. `notify` is the thread in `notifyAllImpl`, which holds `FLLock`. The attempt of a
thread is the one of its current call. `increments` counts the stores to `Counter` and `notified` is
its value at the end of the last `notifyAll`. -/
structure Refill (τ : Type*) where
  isPopulatingFreeList : Bool
  exhausted : Bool
  freeBlocks : Nat
  counter : Nat
  lastNotifyAll : Nat
  notify : Option (τ × NotifyStage)
  pc : τ → RefillPc
  attempt : τ → Option Attempt
  increments : Nat
  notified : Nat

namespace Refill

variable {τ : Type*} [DecidableEq τ]

/-- `popBlocksImpl` may take this number of blocks. -/
def Pops (freeBlocks popCount : Nat) : Prop := popCount ≤ freeBlocks ∧ (popCount = 0 → freeBlocks = 0)

/-- After a `popBlocksImpl`: the result, or on to the top of the loop. -/
def afterPop (popCount : Nat) : RefillPc := if popCount = 0 then .claiming else .returned popCount

def afterNotify : Option Nat → RefillPc
  | none => .outside
  | some popCount => .returned popCount

/-- The steps of thread `t`. A critical section needs `FLLock`. -/
inductive Step : Refill τ → Refill τ → Prop
  /-- The first part of `popBlocks`. -/
  | popBlocks {s : Refill τ} (t : τ) (popCount : Nat) (idle : (s.pc t).Idle) (lock : s.notify = none)
      (pops : Pops s.freeBlocks popCount) :
      Step s { s with
        freeBlocks := s.freeBlocks - popCount
        pc := Function.update s.pc t (afterPop popCount)
        attempt := Function.update s.attempt t none }
  | claim {s : Refill τ} (t : τ) (at_ : s.pc t = .claiming) (lock : s.notify = none)
      (free : s.isPopulatingFreeList = false) :
      Step s { s with
        isPopulatingFreeList := true
        pc := Function.update s.pc t .populating }
  | claimed {s : Refill τ} (t : τ) (at_ : s.pc t = .claiming) (lock : s.notify = none)
      (taken : s.isPopulatingFreeList = true) :
      Step s { s with pc := Function.update s.pc t .popping }
  | regionIsExhausted {s : Refill τ} (t : τ) (at_ : s.pc t = .populating)
      (exhausted : s.exhausted = true) :
      Step s { s with
        pc := Function.update s.pc t (.resetting 0)
        attempt := Function.update s.attempt t (some .exhausted) }
  /-- `populateFreeListAndPopBlocks` where the region ends, where the mapping fails, and where it
  pushes blocks and pops some. -/
  | exhaust {s : Refill τ} (t : τ) (at_ : s.pc t = .populating) (more : s.exhausted = false) :
      Step s { s with
        exhausted := true
        pc := Function.update s.pc t (.resetting 0)
        attempt := Function.update s.attempt t (some .exhausted) }
  | fail {s : Refill τ} (t : τ) (at_ : s.pc t = .populating) (more : s.exhausted = false) :
      Step s { s with
        pc := Function.update s.pc t (.resetting 0)
        attempt := Function.update s.attempt t (some .failed) }
  | populate {s : Refill τ} (t : τ) (numberOfBlocks popCount : Nat) (at_ : s.pc t = .populating)
      (more : s.exhausted = false) (lock : s.notify = none) (some_ : 0 < numberOfBlocks)
      (pops : Pops (s.freeBlocks + numberOfBlocks) popCount) :
      Step s { s with
        freeBlocks := s.freeBlocks + numberOfBlocks - popCount
        pc := Function.update s.pc t (.resetting popCount)
        attempt := Function.update s.attempt t (some .populated) }
  | reset {s : Refill τ} (t : τ) (popCount : Nat) (at_ : s.pc t = .resetting popCount)
      (lock : s.notify = none) :
      Step s { s with
        isPopulatingFreeList := false
        notify := some (t, .entered)
        pc := Function.update s.pc t (.notifying (some popCount)) }
  | pop {s : Refill τ} (t : τ) (popCount : Nat) (at_ : s.pc t = .popping) (lock : s.notify = none)
      (pops : Pops s.freeBlocks popCount) (found : popCount ≠ 0) :
      Step s { s with
        freeBlocks := s.freeBlocks - popCount
        pc := Function.update s.pc t (.returned popCount) }
  | again {s : Refill τ} (t : τ) (at_ : s.pc t = .popping) (lock : s.notify = none)
      (none_ : s.freeBlocks = 0) (free : s.isPopulatingFreeList = false) :
      Step s { s with pc := Function.update s.pc t .claiming }
  /-- `waitImpl` up to its unlock. -/
  | wait {s : Refill τ} (t : τ) (at_ : s.pc t = .popping) (lock : s.notify = none)
      (none_ : s.freeBlocks = 0) (taken : s.isPopulatingFreeList = true) :
      Step s { s with
        counter := wadd 32 s.counter 1
        increments := s.increments + 1
        pc := Function.update s.pc t (.waiting (wadd 32 s.counter 1) (s.increments + 1)) }
  | futexWait {s : Refill τ} (t : τ) (v turn : Nat) (at_ : s.pc t = .waiting v turn) :
      Step s { s with
        pc := Function.update s.pc t (if s.counter = v then .asleep v turn else .relocking turn) }
  /-- `FUTEX_WAIT` returns without a wake. -/
  | spurious {s : Refill τ} (t : τ) (v turn : Nat) (at_ : s.pc t = .asleep v turn) :
      Step s { s with pc := Function.update s.pc t (.relocking turn) }
  | relock {s : Refill τ} (t : τ) (turn popCount : Nat) (at_ : s.pc t = .relocking turn)
      (lock : s.notify = none) (pops : Pops s.freeBlocks popCount) :
      Step s { s with
        freeBlocks := s.freeBlocks - popCount
        pc := Function.update s.pc t (afterPop popCount) }
  | pushBlocks {s : Refill τ} (t : τ) (size : Nat) (idle : (s.pc t).Idle) (lock : s.notify = none)
      (some_ : 0 < size) :
      Step s { s with
        freeBlocks := s.freeBlocks + size
        notify := some (t, .entered)
        pc := Function.update s.pc t (.notifying none) }
  | store {s : Refill τ} (t : τ) (stage : s.notify = some (t, .entered)) :
      Step s { s with
        counter := wadd 32 s.counter 1
        increments := s.increments + 1
        notify := some (t, .stored s.counter) }
  | wake {s : Refill τ} (t : τ) (v : Nat) (stage : s.notify = some (t, .stored v)) :
      Step s { s with
        notify := some (t, .woken v)
        pc := if s.lastNotifyAll ≠ v then fun u => (s.pc u).wake else s.pc }
  | note {s : Refill τ} (t : τ) (v : Nat) (popCount : Option Nat) (at_ : s.pc t = .notifying popCount)
      (stage : s.notify = some (t, .woken v)) :
      Step s { s with
        lastNotifyAll := wadd 32 v 1
        notify := none
        notified := s.increments
        pc := Function.update s.pc t (afterNotify popCount) }

/-- `Counter` does not come around during one `wait`. -/
def WaitsBounded (s : Refill τ) : Prop :=
  ∀ t turn, (s.pc t).turn? = some turn → s.increments < turn + 2 ^ 32

/-- `Counter` does not come around from one `notifyAll` to the next. -/
def NotifiesBounded (s : Refill τ) : Prop := s.increments < s.notified + 2 ^ 32

def initial (τ : Type*) : Refill τ :=
  { isPopulatingFreeList := false, exhausted := false, freeBlocks := 0, counter := 0
    lastNotifyAll := 0, notify := none, pc := fun _ => .outside, attempt := fun _ => none
    increments := 0, notified := 0 }

/-- Any number of threads; every state that is reached is as assumed. -/
def system (τ : Type*) [DecidableEq τ] (assumed : Refill τ → Prop) : System (Refill τ) :=
  ⟨fun s => s = initial τ, fun s s' => Step s s' ∧ assumed s'⟩

/-- The thread is in `notifyAllImpl` before its wake, which it will not skip. -/
def AboutToWake (s : Refill τ) (t : τ) : Prop :=
  (s.notify = some (t, .entered) ∧ s.lastNotifyAll ≠ s.counter) ∨
    ∃ v, s.notify = some (t, .stored v) ∧ s.lastNotifyAll ≠ v

/-- The flag tells whether there is a thread between its claim and its reset, and there is at most
one. -/
structure Claims (s : Refill τ) : Prop where
  sole : Sole RefillPc.Populating s.pc
  flag : s.isPopulatingFreeList = true ↔ ∃ t, (s.pc t).Populating

/-- A result of 0 comes from the thread's own attempt. -/
def Answers (s : Refill τ) : Prop :=
  ∀ t, (s.pc t).Empty → s.attempt t = some .exhausted ∨ s.attempt t = some .failed

/-- The next change of `Counter` is one by `notifyAll` or comes before it. -/
def Open (s : Refill τ) : Prop :=
  (s.notify = none ∧ s.isPopulatingFreeList = true) ∨ ∃ t, s.notify = some (t, .entered)

/-- The counters are those of the whole run, and whoever sleeps has its turn after the last
`notifyAll`. -/
structure Counts (s : Refill τ) : Prop where
  counter : s.counter = wrap 32 s.increments
  last : s.lastNotifyAll = wrap 32 s.notified
  behind : s.notified ≤ s.increments
  stage : ∀ t v, s.notify = some (t, .stored v) ∨ s.notify = some (t, .woken v) →
    s.notified < s.increments ∧ v = wrap 32 (s.increments - 1)
  waits : ∀ t v turn, s.pc t = .waiting v turn → v = wrap 32 turn ∧ turn ≤ s.increments ∧
    (turn = s.increments → s.notified < turn ∧ s.Open)
  sleeps : ∀ t v turn, s.pc t = .asleep v turn → turn ≤ s.increments ∧ s.notified < turn ∧
    (s.Open ∨ turn < s.increments ∧ ∃ u v, s.notify = some (u, .stored v))

section Moves

variable {s s' : Refill τ} {t : τ} {p : RefillPc}

theorem Pops.zero {freeBlocks popCount : Nat} (pops : Pops freeBlocks popCount)
    (nothing : popCount = 0) : freeBlocks = 0 := pops.2 nothing

theorem afterPop_not_empty (popCount : Nat) : ¬(afterPop popCount).Empty := by
  unfold afterPop RefillPc.Empty
  split_ifs with nothing
  · simp
  · simp [nothing]

theorem afterPop_not_populating (popCount : Nat) : ¬(afterPop popCount).Populating := by
  unfold afterPop RefillPc.Populating
  split_ifs <;> simp

theorem idle_not_populating (idle : p.Idle) : ¬p.Populating := by
  rcases idle with rfl | ⟨popCount, rfl⟩
  · simp [RefillPc.Populating]
  · simp [RefillPc.Populating]

theorem wake_populating (pc : RefillPc) : pc.wake.Populating ↔ pc.Populating := by
  cases pc <;> simp [RefillPc.wake, RefillPc.Populating]

theorem wake_empty (pc : RefillPc) : pc.wake.Empty ↔ pc.Empty := by
  cases pc <;> simp [RefillPc.wake, RefillPc.Empty]

theorem wake_not_asleep (pc : RefillPc) (v turn : Nat) : pc.wake ≠ .asleep v turn := by
  cases pc <;> simp [RefillPc.wake]

theorem wake_waiting {pc : RefillPc} {v turn : Nat} (waits : pc.wake = .waiting v turn) :
    pc = .waiting v turn := by
  cases pc <;> simp_all [RefillPc.wake]

/-- A thread that neither claims nor resets. -/
theorem Claims.move (claims : s.Claims) (moved : s'.pc = Function.update s.pc t p)
    (kept : s'.isPopulatingFreeList = s.isPopulatingFreeList)
    (same : p.Populating ↔ (s.pc t).Populating) : s'.Claims := by
  constructor
  · rw [moved]
    by_cases inside : (s.pc t).Populating
    · exact claims.sole.stay inside
    · exact claims.sole.leave (fun new => inside (same.mp new))
  · rw [moved, kept]
    exact claims.flag.trans (exists_update_iff RefillPc.Populating same).symm

/-- A thread that goes on without an empty result, or with one of its own. -/
theorem Answers.move (answers : s.Answers) (moved : s'.pc = Function.update s.pc t p)
    (others : ∀ u, u ≠ t → s'.attempt u = s.attempt u)
    (own : p.Empty → s'.attempt t = some .exhausted ∨ s'.attempt t = some .failed) :
    s'.Answers := by
  intro u now
  rw [moved] at now
  rcases of_update RefillPc.Empty now with ⟨rfl, new⟩ | ⟨different, before⟩
  · exact own new
  · rw [others u different]
    exact answers u before

theorem waiting_before {u : τ} {v turn : Nat} (now : Function.update s.pc t p u = .waiting v turn)
    (outside : ∀ v turn, p ≠ .waiting v turn) : s.pc u = .waiting v turn := by
  rcases of_update (fun pc => pc = RefillPc.waiting v turn) now with ⟨_, new⟩ | ⟨_, before⟩
  · exact absurd new (outside v turn)
  · exact before

theorem asleep_before {u : τ} {v turn : Nat} (now : Function.update s.pc t p u = .asleep v turn)
    (outside : ∀ v turn, p ≠ .asleep v turn) : s.pc u = .asleep v turn := by
  rcases of_update (fun pc => pc = RefillPc.asleep v turn) now with ⟨_, new⟩ | ⟨_, before⟩
  · exact absurd new (outside v turn)
  · exact before

/-- A thread that moves outside of `waitImpl`, where the counters and the notifier stay and the
flag is not reset. -/
theorem Counts.move (counts : s.Counts) (awake : ∀ v turn, p ≠ .waiting v turn ∧ p ≠ .asleep v turn)
    {flag : Bool} (flagged : s.isPopulatingFreeList = true → flag = true) (exhausted : Bool)
    (freeBlocks : Nat) (attempt : τ → Option Attempt) :
    Counts { s with
      isPopulatingFreeList := flag
      exhausted := exhausted
      freeBlocks := freeBlocks
      pc := Function.update s.pc t p
      attempt := attempt } := by
  refine ⟨counts.counter, counts.last, counts.behind, counts.stage, ?_, ?_⟩
  · intro u v turn now
    obtain ⟨is, le, newest⟩ := counts.waits u v turn (waiting_before now fun v turn => (awake v turn).1)
    refine ⟨is, le, ?_⟩
    intro same
    obtain ⟨after, open_⟩ := newest same
    exact ⟨after, open_.imp (fun both => ⟨both.1, flagged both.2⟩) id⟩
  · intro u v turn now
    obtain ⟨le, after, open_⟩ := counts.sleeps u v turn (asleep_before now fun v turn => (awake v turn).2)
    exact ⟨le, after, open_.imp (Or.imp (fun both => ⟨both.1, flagged both.2⟩) id) id⟩

/-- A thread that takes the lock to notify. -/
theorem Counts.enter (counts : s.Counts)
    (awake : ∀ v turn, p ≠ .waiting v turn ∧ p ≠ .asleep v turn) (flag : Bool) (freeBlocks : Nat) :
    Counts { s with
      isPopulatingFreeList := flag
      freeBlocks := freeBlocks
      notify := some (t, .entered)
      pc := Function.update s.pc t p } := by
  refine ⟨counts.counter, counts.last, counts.behind, ?_, ?_, ?_⟩
  · intro u v stage
    simp at stage
  · intro u v turn now
    obtain ⟨is, le, newest⟩ := counts.waits u v turn (waiting_before now fun v turn => (awake v turn).1)
    exact ⟨is, le, fun same => ⟨(newest same).1, Or.inr ⟨t, rfl⟩⟩⟩
  · intro u v turn now
    obtain ⟨le, after, _⟩ := counts.sleeps u v turn (asleep_before now fun v turn => (awake v turn).2)
    exact ⟨le, after, Or.inl (Or.inr ⟨t, rfl⟩)⟩

/-- A thread that registers: its turn is the newest. -/
theorem Counts.wait (counts : s.Counts) (lock : s.notify = none)
    (taken : s.isPopulatingFreeList = true) :
    Counts { s with
      counter := wadd 32 s.counter 1
      increments := s.increments + 1
      pc := Function.update s.pc t (.waiting (wadd 32 s.counter 1) (s.increments + 1)) } := by
  have counter : wadd 32 s.counter 1 = wrap 32 (s.increments + 1) := by
    rw [counts.counter]
    exact wrap_succ 32 s.increments
  have behind := counts.behind
  refine ⟨counter, counts.last, Nat.le_succ_of_le behind, ?_, ?_, ?_⟩
  · intro u v stage
    simp [lock] at stage
  · intro u v turn now
    rcases of_update (fun pc => pc = RefillPc.waiting v turn) now with ⟨_, new⟩ | ⟨_, before⟩
    · cases new
      exact ⟨counter, le_rfl, fun _ => ⟨Nat.lt_succ_of_le behind, Or.inl ⟨lock, taken⟩⟩⟩
    · obtain ⟨is, le, _⟩ := counts.waits u v turn before
      refine ⟨is, Nat.le_succ_of_le le, ?_⟩
      intro same
      change turn = s.increments + 1 at same
      omega
  · intro u v turn now
    obtain ⟨le, after, _⟩ := counts.sleeps u v turn (asleep_before now (by simp))
    exact ⟨Nat.le_succ_of_le le, after, Or.inl (Or.inl ⟨lock, taken⟩)⟩

omit [DecidableEq τ] in
/-- `Counter` is the written value only where no increment came after it. -/
theorem Counts.newest (counts : s.Counts) (bounded : s.WaitsBounded) {v turn : Nat}
    (at_ : s.pc t = .waiting v turn) (equal : s.counter = v) : turn = s.increments := by
  obtain ⟨is, le, _⟩ := counts.waits t v turn at_
  have close := bounded t turn (by rw [at_]; rfl)
  rw [counts.counter, is] at equal
  have distance : wsub 32 (wrap 32 s.increments) (wrap 32 turn) = s.increments - turn :=
    wsub_wrap le (by omega)
  have none_ : wsub 32 (wrap 32 turn) (wrap 32 turn) = turn - turn := wsub_wrap le_rfl (by omega)
  rw [equal, none_] at distance
  omega

theorem Counts.futexWait (counts : s.Counts) (bounded : s.WaitsBounded) {v turn : Nat}
    (at_ : s.pc t = .waiting v turn) :
    Counts { s with
      pc := Function.update s.pc t (if s.counter = v then .asleep v turn else .relocking turn) } := by
  split_ifs with equal
  · have newest := counts.newest bounded at_ equal
    obtain ⟨_, le, latest⟩ := counts.waits t v turn at_
    obtain ⟨after, open_⟩ := latest newest
    refine ⟨counts.counter, counts.last, counts.behind, counts.stage, ?_, ?_⟩
    · intro u w other now
      exact counts.waits u w other (waiting_before now (by simp))
    · intro u w other now
      rcases of_update (fun pc => pc = RefillPc.asleep w other) now with ⟨_, new⟩ | ⟨_, before⟩
      · cases new
        exact ⟨le, after, Or.inl open_⟩
      · exact counts.sleeps u w other before
  · exact counts.move (by simp) id s.exhausted s.freeBlocks s.attempt

omit [DecidableEq τ] in
/-- The store to `Counter` leaves no turn that is the newest. -/
theorem Counts.store (counts : s.Counts) :
    Counts { s with
      counter := wadd 32 s.counter 1
      increments := s.increments + 1
      notify := some (t, .stored s.counter) } := by
  have behind := counts.behind
  refine ⟨?_, counts.last, Nat.le_succ_of_le behind, ?_, ?_, ?_⟩
  · change wadd 32 s.counter 1 = _
    rw [counts.counter]
    exact wrap_succ 32 s.increments
  · intro u v staged
    have same : v = s.counter := by
      rcases staged with staged | staged
      · cases staged
        rfl
      · cases staged
    exact ⟨Nat.lt_succ_of_le behind, same.trans counts.counter⟩
  · intro u v turn now
    obtain ⟨is, le, _⟩ := counts.waits u v turn now
    refine ⟨is, Nat.le_succ_of_le le, ?_⟩
    intro same
    change turn = s.increments + 1 at same
    omega
  · intro u v turn now
    obtain ⟨le, after, _⟩ := counts.sleeps u v turn now
    exact ⟨Nat.le_succ_of_le le, after, Or.inr ⟨Nat.lt_succ_of_le le, t, s.counter, rfl⟩⟩

omit [DecidableEq τ] in
/-- `LastNotifyAll` tells the counts of the next `2 ^ 32 - 1` increments from its own. -/
theorem Counts.differs (counts : s.Counts) {n : Nat} (after : s.notified < n)
    (close : n < s.notified + 2 ^ 32) : s.lastNotifyAll ≠ wrap 32 n := by
  intro same
  rw [counts.last] at same
  have distance : wsub 32 (wrap 32 n) (wrap 32 s.notified) = n - s.notified :=
    wsub_wrap after.le (by omega)
  have none_ : wsub 32 (wrap 32 n) (wrap 32 n) = n - n := wsub_wrap le_rfl (by omega)
  rw [same, none_] at distance
  omega

omit [DecidableEq τ] in
/-- Where somebody sleeps, a notifier that stored `v + 1` finds `LastNotifyAll` different from
`v`. -/
theorem Counts.not_skipped (counts : s.Counts) (bounded : s.NotifiesBounded) {u : τ} {v w turn : Nat}
    (stage : s.notify = some (t, .stored v)) (asleep : s.pc u = .asleep w turn) :
    s.lastNotifyAll ≠ v := by
  obtain ⟨le, after, open_⟩ := counts.sleeps u w turn asleep
  have strict : turn < s.increments := by
    rcases open_ with (⟨none_, _⟩ | ⟨x, entered⟩) | ⟨strict, _⟩
    · rw [stage] at none_
      cases none_
    · rw [stage] at entered
      cases entered
    · exact strict
  obtain ⟨_, is⟩ := counts.stage t v (Or.inl stage)
  rw [is]
  unfold NotifiesBounded at bounded
  exact counts.differs (by omega) (by omega)

omit [DecidableEq τ] in
theorem Counts.wake (counts : s.Counts) (bounded : s.NotifiesBounded) {v : Nat}
    (stage : s.notify = some (t, .stored v)) :
    Counts { s with
      notify := some (t, .woken v)
      pc := if s.lastNotifyAll ≠ v then fun u => (s.pc u).wake else s.pc } := by
  have kept : ∀ u w turn, (if s.lastNotifyAll ≠ v then fun u => (s.pc u).wake else s.pc) u =
      .waiting w turn → s.pc u = .waiting w turn := by
    intro u w turn now
    split_ifs at now
    · exact wake_waiting now
    · exact now
  refine ⟨counts.counter, counts.last, counts.behind, ?_, ?_, ?_⟩
  · intro u w staged
    apply counts.stage t w
    rcases staged with staged | staged
    · cases staged
    · cases staged
      exact Or.inl stage
  · intro u w turn now
    obtain ⟨is, le, newest⟩ := counts.waits u w turn (kept u w turn now)
    refine ⟨is, le, ?_⟩
    intro same
    rcases (newest same).2 with ⟨none_, _⟩ | ⟨x, entered⟩
    · rw [stage] at none_
      cases none_
    · rw [stage] at entered
      cases entered
  · intro u w turn now
    dsimp only at now
    split_ifs at now with skipped
    · exact absurd now (wake_not_asleep _ _ _)
    · exact absurd (not_not.mp skipped) (counts.not_skipped bounded stage now)

omit [DecidableEq τ] in
/-- At the end of `notifyAllImpl` nobody sleeps. -/
theorem Counts.nobody (counts : s.Counts) {u : τ} {v w turn : Nat}
    (stage : s.notify = some (t, .woken v)) : s.pc u ≠ .asleep w turn := by
  intro asleep
  rcases (counts.sleeps u w turn asleep).2.2 with (⟨none_, _⟩ | ⟨x, entered⟩) | ⟨_, x, y, stored⟩
  · rw [stage] at none_
    cases none_
  · rw [stage] at entered
    cases entered
  · rw [stage] at stored
    cases stored

theorem Counts.note (counts : s.Counts) {v : Nat} (stage : s.notify = some (t, .woken v))
    (awake : ∀ v turn, p ≠ .waiting v turn ∧ p ≠ .asleep v turn) :
    Counts { s with
      lastNotifyAll := wadd 32 v 1
      notify := none
      notified := s.increments
      pc := Function.update s.pc t p } := by
  obtain ⟨positive, is⟩ := counts.stage t v (Or.inr stage)
  refine ⟨counts.counter, ?_, le_rfl, ?_, ?_, ?_⟩
  · change wadd 32 v 1 = wrap 32 s.increments
    calc wadd 32 v 1 = wrap 32 (wrap 32 (s.increments - 1) + 1) := by rw [is]; rfl
      _ = wrap 32 (s.increments - 1 + 1) := wrap_succ 32 _
      _ = wrap 32 s.increments := by rw [Nat.sub_add_cancel (by omega)]
  · intro u w staged
    simp at staged
  · intro u w turn now
    obtain ⟨is, le, newest⟩ := counts.waits u w turn (waiting_before now fun v turn => (awake v turn).1)
    refine ⟨is, le, ?_⟩
    intro same
    rcases (newest same).2 with ⟨none_, _⟩ | ⟨x, entered⟩
    · rw [stage] at none_
      cases none_
    · rw [stage] at entered
      cases entered
  · intro u w turn now
    exact absurd (asleep_before now fun v turn => (awake v turn).2) (counts.nobody stage)

end Moves

section Steps

variable {s s' : Refill τ}

theorem Claims.step (claims : s.Claims) (step : Step s s') : s'.Claims := by
  have still : ∀ {t : τ} {p : RefillPc}, ¬(s.pc t).Populating → ¬p.Populating →
      (p.Populating ↔ (s.pc t).Populating) := fun before after => iff_of_false after before
  have within : ∀ {t : τ} {popCount : Nat}, s.pc t = .populating →
      (RefillPc.Populating (.resetting popCount) ↔ (s.pc t).Populating) :=
    fun at_ => iff_of_true (Or.inr ⟨_, rfl⟩) (Or.inl at_)
  cases step with
  | popBlocks t popCount idle lock pops =>
    exact claims.move rfl rfl (still (idle_not_populating idle) (afterPop_not_populating popCount))
  | claim t at_ lock free =>
    have nobody : ∀ u, ¬(s.pc u).Populating := by
      intro u inside
      rw [claims.flag.mpr ⟨u, inside⟩] at free
      cases free
    exact ⟨Sole.enter nobody, iff_of_true rfl ⟨t, update_new _ (Or.inl rfl)⟩⟩
  | claimed t at_ lock taken =>
    exact claims.move rfl rfl (still (by simp [at_, RefillPc.Populating])
      (by simp [RefillPc.Populating]))
  | regionIsExhausted t at_ exhausted => exact claims.move rfl rfl (within at_)
  | exhaust t at_ more => exact claims.move rfl rfl (within at_)
  | fail t at_ more => exact claims.move rfl rfl (within at_)
  | populate t numberOfBlocks popCount at_ more lock some_ pops =>
    exact claims.move rfl rfl (within at_)
  | reset t popCount at_ lock =>
    have outside : ¬RefillPc.Populating (.notifying (some popCount)) := by
      simp [RefillPc.Populating]
    exact ⟨claims.sole.leave outside,
      iff_of_false Bool.false_ne_true (claims.sole.left_none (Or.inr ⟨popCount, at_⟩) outside)⟩
  | pop t popCount at_ lock pops found =>
    exact claims.move rfl rfl (still (by simp [at_, RefillPc.Populating])
      (by simp [RefillPc.Populating]))
  | again t at_ lock none_ free =>
    exact claims.move rfl rfl (still (by simp [at_, RefillPc.Populating])
      (by simp [RefillPc.Populating]))
  | wait t at_ lock none_ taken =>
    exact claims.move rfl rfl (still (by simp [at_, RefillPc.Populating])
      (by simp [RefillPc.Populating]))
  | futexWait t v turn at_ =>
    refine claims.move rfl rfl (still ?_ ?_)
    · simp [at_, RefillPc.Populating]
    · split_ifs <;> simp [RefillPc.Populating]
  | spurious t v turn at_ =>
    exact claims.move rfl rfl (still (by simp [at_, RefillPc.Populating])
      (by simp [RefillPc.Populating]))
  | relock t turn popCount at_ lock pops =>
    exact claims.move rfl rfl (still (by simp [at_, RefillPc.Populating])
      (afterPop_not_populating popCount))
  | pushBlocks t size idle lock some_ =>
    exact claims.move rfl rfl (still (idle_not_populating idle) (by simp [RefillPc.Populating]))
  | store t stage => exact ⟨claims.sole, claims.flag⟩
  | wake t v stage =>
    split_ifs
    · constructor
      · intro u w first second
        exact claims.sole u w ((wake_populating _).mp first) ((wake_populating _).mp second)
      · exact claims.flag.trans (exists_congr fun u => (wake_populating _).symm)
    · exact ⟨claims.sole, claims.flag⟩
  | note t v popCount at_ stage =>
    refine claims.move rfl rfl (still ?_ ?_)
    · simp [at_, RefillPc.Populating]
    · cases popCount <;> simp [afterNotify, RefillPc.Populating]

theorem Answers.step (answers : s.Answers) (step : Step s s') : s'.Answers := by
  have same : ∀ {t : τ}, ∀ u, u ≠ t → s.attempt u = s.attempt u := fun _ _ => rfl
  have filled : ∀ {p : RefillPc} {t : τ} {attempt : τ → Option Attempt}, ¬p.Empty →
      p.Empty → attempt t = some .exhausted ∨ attempt t = some .failed :=
    fun not now => absurd now not
  cases step with
  | popBlocks t popCount idle lock pops =>
    exact answers.move rfl (fun u different => Function.update_of_ne different _ _)
      (filled (afterPop_not_empty popCount))
  | claim t at_ lock free => exact answers.move rfl same (filled (by simp [RefillPc.Empty]))
  | claimed t at_ lock taken => exact answers.move rfl same (filled (by simp [RefillPc.Empty]))
  | regionIsExhausted t at_ exhausted =>
    exact answers.move rfl (fun u different => Function.update_of_ne different _ _)
      fun _ => Or.inl (Function.update_self ..)
  | exhaust t at_ more =>
    exact answers.move rfl (fun u different => Function.update_of_ne different _ _)
      fun _ => Or.inl (Function.update_self ..)
  | fail t at_ more =>
    exact answers.move rfl (fun u different => Function.update_of_ne different _ _)
      fun _ => Or.inr (Function.update_self ..)
  | populate t numberOfBlocks popCount at_ more lock some_ pops =>
    refine answers.move rfl (fun u different => Function.update_of_ne different _ _) (filled ?_)
    -- blocks have been pushed, so that some are popped
    have positive : popCount ≠ 0 := by
      intro nothing
      have none_ := pops.zero nothing
      omega
    simp [RefillPc.Empty, positive]
  | reset t popCount at_ lock =>
    refine answers.move rfl same ?_
    rintro (now | now | now)
    · cases now
    · cases now
      exact answers t (Or.inl at_)
    · cases now
  | pop t popCount at_ lock pops found =>
    exact answers.move rfl same (filled (by simp [RefillPc.Empty, found]))
  | again t at_ lock none_ free => exact answers.move rfl same (filled (by simp [RefillPc.Empty]))
  | wait t at_ lock none_ taken => exact answers.move rfl same (filled (by simp [RefillPc.Empty]))
  | futexWait t v turn at_ =>
    refine answers.move rfl same (filled ?_)
    split_ifs <;> simp [RefillPc.Empty]
  | spurious t v turn at_ => exact answers.move rfl same (filled (by simp [RefillPc.Empty]))
  | relock t turn popCount at_ lock pops =>
    exact answers.move rfl same (filled (afterPop_not_empty popCount))
  | pushBlocks t size idle lock some_ =>
    exact answers.move rfl same (filled (by simp [RefillPc.Empty]))
  | store t stage => exact answers
  | wake t v stage =>
    intro u now
    apply answers u
    dsimp only at now
    split_ifs at now
    · exact (wake_empty _).mp now
    · exact now
  | note t v popCount at_ stage =>
    refine answers.move rfl same ?_
    intro now
    cases popCount with
    | none => simp [afterNotify, RefillPc.Empty] at now
    | some popCount =>
      have zero : popCount = 0 := by simpa [afterNotify, RefillPc.Empty] using now
      subst zero
      exact answers t (Or.inr (Or.inl at_))

theorem Counts.step (counts : s.Counts) (waits : s.WaitsBounded) (notifies : s.NotifiesBounded)
    (step : Step s s') : s'.Counts := by
  cases step with
  | popBlocks t popCount idle lock pops =>
    refine counts.move ?_ id _ _ _
    unfold afterPop
    split_ifs <;> simp
  | claim t at_ lock free => exact counts.move (by simp) (fun _ => rfl) _ _ _
  | claimed t at_ lock taken => exact counts.move (by simp) id _ _ _
  | regionIsExhausted t at_ exhausted => exact counts.move (by simp) id _ _ _
  | exhaust t at_ more => exact counts.move (by simp) id _ _ _
  | fail t at_ more => exact counts.move (by simp) id _ _ _
  | populate t numberOfBlocks popCount at_ more lock some_ pops =>
    exact counts.move (by simp) id _ _ _
  | reset t popCount at_ lock => exact counts.enter (by simp) _ _
  | pop t popCount at_ lock pops found => exact counts.move (by simp) id _ _ _
  | again t at_ lock none_ free => exact counts.move (by simp) id _ _ _
  | wait t at_ lock none_ taken => exact counts.wait lock taken
  | futexWait t v turn at_ => exact counts.futexWait waits at_
  | spurious t v turn at_ => exact counts.move (by simp) id _ _ _
  | relock t turn popCount at_ lock pops =>
    refine counts.move ?_ id _ _ _
    unfold afterPop
    split_ifs <;> simp
  | pushBlocks t size idle lock some_ => exact counts.enter (by simp) _ _
  | store t stage => exact counts.store
  | wake t v stage => exact counts.wake notifies stage
  | note t v popCount at_ stage =>
    refine counts.note stage ?_
    cases popCount <;> simp [afterNotify]

omit [DecidableEq τ] in
theorem initial_claims : (initial τ).Claims := by
  constructor
  · intro t u inside
    simp [initial, RefillPc.Populating] at inside
  · simp [initial, RefillPc.Populating]

omit [DecidableEq τ] in
theorem initial_answers : (initial τ).Answers := by
  intro t now
  simp [initial, RefillPc.Empty] at now

omit [DecidableEq τ] in
theorem initial_counts : (initial τ).Counts := by
  refine ⟨rfl, rfl, le_rfl, ?_, ?_, ?_⟩
  · simp [initial]
  · simp [initial]
  · simp [initial]

omit [DecidableEq τ] in
theorem initial_bounded : (initial τ).WaitsBounded ∧ (initial τ).NotifiesBounded := by
  constructor
  · intro t turn now
    simp [initial, RefillPc.turn?] at now
  · change 0 < 0 + 2 ^ 32
    omega

/-- Whatever is assumed, the flag and the results are right. -/
theorem reachable_claims {assumed : Refill τ → Prop} (reached : (system τ assumed).Reachable s) :
    s.Claims ∧ s.Answers := by
  apply reached.invariant
  · rintro _ rfl
    exact ⟨initial_claims, initial_answers⟩
  · rintro s s' ⟨claims, answers⟩ ⟨step, _⟩
    exact ⟨claims.step step, answers.step step⟩

theorem reachable_counts
    (reached : (system τ fun s => s.WaitsBounded ∧ s.NotifiesBounded).Reachable s) :
    s.Counts ∧ s.WaitsBounded ∧ s.NotifiesBounded := by
  apply reached.invariant
  · rintro _ rfl
    exact ⟨initial_counts, initial_bounded⟩
  · rintro s s' ⟨counts, waits, notifies⟩ ⟨step, bounded⟩
    exact ⟨counts.step waits notifies step, bounded⟩

/-- The steps of a notifier that will not skip its wake leave nobody asleep. -/
theorem AboutToWake.wakes {t : τ} (about : s.AboutToWake t) :
    ∃ s₁ s₂, (s₁ = s ∨ Step s s₁) ∧ Step s₁ s₂ ∧ ∀ u v turn, s₂.pc u ≠ .asleep v turn := by
  have last : ∀ {m : Refill τ} {v : Nat}, m.notify = some (t, .stored v) → m.lastNotifyAll ≠ v →
      ∃ m', Step m m' ∧ ∀ u v turn, m'.pc u ≠ .asleep v turn := by
    intro m v stage different
    refine ⟨_, Step.wake t v stage, ?_⟩
    intro u w turn
    dsimp only
    rw [if_pos different]
    exact wake_not_asleep _ _ _
  rcases about with ⟨stage, different⟩ | ⟨v, stage, different⟩
  · obtain ⟨s₁, stores, stored, same⟩ : ∃ s₁, Step s s₁ ∧
        s₁.notify = some (t, .stored s.counter) ∧ s₁.lastNotifyAll = s.lastNotifyAll :=
      ⟨_, Step.store t stage, rfl, rfl⟩
    rw [← same] at different
    obtain ⟨s₂, woken, nobody⟩ := last stored different
    exact ⟨s₁, s₂, Or.inr stores, woken, nobody⟩
  · obtain ⟨s₂, woken, nobody⟩ := last stage different
    exact ⟨s, s₂, Or.inl rfl, woken, nobody⟩

omit [DecidableEq τ] in
/-- Whoever sleeps has its wake ahead. -/
theorem Counts.watched (counts : s.Counts) (bounded : s.NotifiesBounded) {t : τ} {v turn : Nat}
    (asleep : s.pc t = .asleep v turn) :
    s.isPopulatingFreeList = true ∨ ∃ u, s.AboutToWake u := by
  obtain ⟨le, after, open_⟩ := counts.sleeps t v turn asleep
  unfold NotifiesBounded at bounded
  rcases open_ with (⟨_, taken⟩ | ⟨u, entered⟩) | ⟨_, u, w, stored⟩
  · exact Or.inl taken
  · refine Or.inr ⟨u, Or.inl ⟨entered, ?_⟩⟩
    rw [counts.counter]
    exact counts.differs (by omega) bounded
  · exact Or.inr ⟨u, Or.inr ⟨w, stored, counts.not_skipped bounded stored asleep⟩⟩

end Steps

section Overtaking

/-- Thread 0 populates. One thread waits with the newest turn, and another is about to pop. -/
structure Overtaken (s : Refill Nat) (turn popping waiting : Nat) : Prop where
  flag : s.isPopulatingFreeList = true
  more : s.exhausted = false
  empty : s.freeBlocks = 0
  lock : s.notify = none
  counter : s.counter = wrap 32 turn
  last : s.lastNotifyAll = 0
  increments : s.increments = turn
  populates : s.pc 0 = .populating
  pops : s.pc popping = .popping
  waits : s.pc waiting = .waiting (wrap 32 turn) turn
  others : ∀ u, u ≠ waiting → (s.pc u).turn? = none

/-- Turns stay recent while threads move. -/
theorem turns_update {pc : Nat → RefillPc} {low t : Nat} {p : RefillPc}
    (turns : ∀ u n, (pc u).turn? = some n → low ≤ n) (own : ∀ n, p.turn? = some n → low ≤ n) :
    ∀ u n, (Function.update pc t p u).turn? = some n → low ≤ n := by
  intro u n now
  rcases of_update (fun q : RefillPc => q.turn? = some n) now with ⟨_, new⟩ | ⟨_, before⟩
  · exact own n new
  · exact turns u n before

theorem Overtaken.turns {s : Refill Nat} {turn popping waiting : Nat}
    (overtaken : s.Overtaken turn popping waiting) :
    ∀ u n, (s.pc u).turn? = some n → turn ≤ n := by
  intro u n now
  by_cases same : u = waiting
  · rw [same, overtaken.waits] at now
    cases now
    exact le_rfl
  · rw [overtaken.others u same] at now
    cases now

theorem waitsBounded_of_turns {s : Refill Nat} {low : Nat}
    (turns : ∀ u n, (s.pc u).turn? = some n → low ≤ n) (close : s.increments ≤ low + 1) :
    s.WaitsBounded := by
  intro t n now
  have recent := turns t n now
  omega

theorem waitsBounded_of_few {s : Refill Nat} (few : s.increments ≤ 1) : s.WaitsBounded :=
  waitsBounded_of_turns (fun _ n _ => Nat.zero_le n) few

theorem wrap_succ_ne (n : Nat) : wrap 32 (n + 1) ≠ wrap 32 n := by
  unfold wrap
  omega

/-- The second thread registers before the first one is in `FUTEX_WAIT`, which so returns at once,
and the first one goes round the loop: the two have changed places. -/
theorem Overtaken.next {s : Refill Nat} {turn popping waiting : Nat}
    (overtaken : s.Overtaken turn popping waiting)
    (reached : (system Nat WaitsBounded).Reachable s) :
    ∃ s', (system Nat WaitsBounded).Reachable s' ∧ s'.Overtaken (turn + 1) waiting popping := by
  have turns := overtaken.turns
  obtain ⟨flag, more, empty, lock, counter, last, increments, populates, pops, waits, others⟩ :=
    overtaken
  have different : waiting ≠ popping := by
    rintro rfl
    rw [pops] at waits
    cases waits
  have notPopping : (0 : Nat) ≠ popping := by
    rintro rfl
    rw [pops] at populates
    cases populates
  have notWaiting : (0 : Nat) ≠ waiting := by
    rintro rfl
    rw [waits] at populates
    cases populates
  let s₁ : Refill Nat := { s with
    counter := wrap 32 (turn + 1)
    increments := turn + 1
    pc := Function.update s.pc popping (.waiting (wrap 32 (turn + 1)) (turn + 1)) }
  have step₁ : Step s s₁ := by
    have newest : wadd 32 s.counter 1 = wrap 32 (turn + 1) := by
      rw [counter]
      exact wrap_succ 32 turn
    have registered := Step.wait popping pops lock empty flag
    rwa [newest, increments] at registered
  have turns₁ : ∀ u n, (s₁.pc u).turn? = some n → turn ≤ n := by
    apply turns_update turns
    intro n own
    cases own
    exact Nat.le_succ turn
  have reached₁ := reached.step ⟨step₁, waitsBounded_of_turns turns₁ le_rfl⟩
  let s₂ : Refill Nat := { s₁ with pc := Function.update s₁.pc waiting (.relocking turn) }
  have step₂ : Step s₁ s₂ := by
    have returns := Step.futexWait (s := s₁) waiting (wrap 32 turn) turn
      ((Function.update_of_ne different _ _).trans waits)
    rwa [if_neg (wrap_succ_ne turn)] at returns
  have turns₂ : ∀ u n, (s₂.pc u).turn? = some n → turn ≤ n := by
    apply turns_update turns₁
    intro n own
    cases own
    exact le_rfl
  have reached₂ := reached₁.step ⟨step₂, waitsBounded_of_turns turns₂ le_rfl⟩
  let s₃ : Refill Nat := { s₂ with
    freeBlocks := s₂.freeBlocks - 0
    pc := Function.update s₂.pc waiting .claiming }
  have step₃ : Step s₂ s₃ := Step.relock (s := s₂) waiting turn 0 (Function.update_self ..) lock
    ⟨Nat.zero_le _, fun _ => empty⟩
  have turns₃ : ∀ u n, (s₃.pc u).turn? = some n → turn ≤ n :=
    turns_update turns₂ (by simp [RefillPc.turn?])
  have reached₃ := reached₂.step ⟨step₃, waitsBounded_of_turns turns₃ le_rfl⟩
  let s₄ : Refill Nat := { s₃ with pc := Function.update s₃.pc waiting .popping }
  have step₄ : Step s₃ s₄ := Step.claimed (s := s₃) waiting (Function.update_self ..) lock flag
  have turns₄ : ∀ u n, (s₄.pc u).turn? = some n → turn ≤ n :=
    turns_update turns₃ (by simp [RefillPc.turn?])
  have reached₄ := reached₃.step ⟨step₄, waitsBounded_of_turns turns₄ le_rfl⟩
  refine ⟨s₄, reached₄, flag, more, empty, lock, rfl, last, rfl, ?_, ?_, ?_, ?_⟩
  · simp [s₁, s₂, s₃, s₄, notPopping, notWaiting, populates]
  · exact Function.update_self ..
  · simp [s₁, s₂, s₃, s₄, different.symm]
  · intro u other
    by_cases same : u = waiting
    · simp [s₄, same, RefillPc.turn?]
    · simp [s₁, s₂, s₃, s₄, same, other, others u same]

/-- The first round, in every system that allows it. -/
theorem overtaken_first {assumed : Refill Nat → Prop}
    (bounded : ∀ s : Refill Nat, s.increments ≤ 1 → assumed s) :
    ∃ s, (system Nat assumed).Reachable s ∧ s.Overtaken 1 1 2 := by
  have nothing : Pops 0 0 := ⟨le_rfl, fun _ => rfl⟩
  have start : (system Nat assumed).Reachable (initial Nat) := .init rfl
  -- thread 0 claims
  have called₀ := start.step ⟨.popBlocks 0 0 (Or.inl rfl) rfl nothing, bounded _ (Nat.zero_le _)⟩
  have claimed₀ := called₀.step ⟨.claim 0 rfl rfl rfl, bounded _ (Nat.zero_le _)⟩
  -- threads 1 and 2 find the flag set
  have called₁ := claimed₀.step
    ⟨.popBlocks 1 0 (Or.inl rfl) rfl nothing, bounded _ (Nat.zero_le _)⟩
  have claimed₁ := called₁.step ⟨.claimed 1 rfl rfl rfl, bounded _ (Nat.zero_le _)⟩
  have called₂ := claimed₁.step
    ⟨.popBlocks 2 0 (Or.inl rfl) rfl nothing, bounded _ (Nat.zero_le _)⟩
  have claimed₂ := called₂.step ⟨.claimed 2 rfl rfl rfl, bounded _ (Nat.zero_le _)⟩
  have waits := claimed₂.step ⟨.wait 2 rfl rfl rfl rfl, bounded _ le_rfl⟩
  refine ⟨_, waits, rfl, rfl, rfl, rfl, rfl, rfl, rfl, rfl, rfl, rfl, ?_⟩
  intro u other
  simp only [Function.update_apply, if_neg other, afterPop, if_true]
  split_ifs <;> rfl

/-- After any number of rounds the two are where they were, and nobody was notified. -/
theorem overtaken_always (turn : Nat) : ∃ s popping waiting,
    (system Nat WaitsBounded).Reachable s ∧ s.Overtaken (turn + 1) popping waiting := by
  induction turn with
  | zero =>
    obtain ⟨s, reached, overtaken⟩ := overtaken_first fun s few => waitsBounded_of_few few
    exact ⟨s, 1, 2, reached, overtaken⟩
  | succ turn ih =>
    obtain ⟨s, popping, waiting, reached, overtaken⟩ := ih
    obtain ⟨s', reached', overtaken'⟩ := overtaken.next reached
    exact ⟨s', waiting, popping, reached', overtaken'⟩

end Overtaking

/-- In every run in which `Counter` does not come around, neither during one `wait` nor from one
`notifyAll` to the next, the flag is true exactly while one thread is between its claim and its
reset, whoever sleeps sleeps while the flag is true or has a notifier that will wake it, and a
result of 0 comes from the thread's own attempt. -/
theorem refill_protocol {τ : Type*} [DecidableEq τ] {s : Refill τ}
    (reached : (system τ fun s => s.WaitsBounded ∧ s.NotifiesBounded).Reachable s) :
    (∀ t u, (s.pc t).Populating → (s.pc u).Populating → t = u) ∧
    (s.isPopulatingFreeList = true ↔ ∃ t, (s.pc t).Populating) ∧
    (∀ t v turn, s.pc t = .asleep v turn →
      s.isPopulatingFreeList = true ∨ ∃ u, s.AboutToWake u) ∧
    (∀ t, s.pc t = .returned 0 →
      s.attempt t = some .exhausted ∨ s.attempt t = some .failed) := by
  obtain ⟨claims, answers⟩ := reachable_claims reached
  obtain ⟨counts, _, notifies⟩ := reachable_counts reached
  refine ⟨claims.sole, claims.flag, ?_, ?_⟩
  · intro t v turn asleep
    exact counts.watched notifies asleep
  · intro t zero
    exact answers t (Or.inr (Or.inr zero))

/-- The second of two threads sleeps while the first one populates. -/
theorem refill_protocol_asleep : ∃ s : Refill Nat, s.pc 2 = .asleep 1 1 ∧
    (s.isPopulatingFreeList = true ∨ ∃ u, s.AboutToWake u) := by
  have bounded : ∀ s : Refill Nat, s.increments ≤ 1 → s.WaitsBounded ∧ s.NotifiesBounded := by
    intro s few
    refine ⟨waitsBounded_of_few few, ?_⟩
    unfold NotifiesBounded
    omega
  obtain ⟨s, reached, overtaken⟩ := overtaken_first bounded
  have sleeps := Step.futexWait 2 1 1 overtaken.waits
  have equal : s.counter = 1 := overtaken.counter
  rw [if_pos equal] at sleeps
  have safe := refill_protocol (reached.step ⟨sleeps, bounded _ overtaken.increments.le⟩)
  have asleep : Function.update s.pc 2 (.asleep 1 1) 2 = .asleep 1 1 := Function.update_self ..
  exact ⟨_, asleep, safe.2.2.1 2 1 1 asleep⟩

/-- After `2 ^ 32` of them `Counter` is `LastNotifyAll` again while a thread sleeps. The populating
thread resets the flag and skips its wake. -/
theorem refill_wake_skipped : ∃ (s : Refill Nat) (t v turn : Nat),
    (system Nat WaitsBounded).Reachable s ∧ s.pc t = .asleep v turn ∧
      s.isPopulatingFreeList = false ∧ ∀ u, ¬s.AboutToWake u := by
  obtain ⟨s, popping, waiting, reached, overtaken⟩ := overtaken_always (2 ^ 32 - 1)
  have turns := overtaken.turns
  obtain ⟨flag, more, empty, lock, counter, last, increments, populates, pops, waits, others⟩ :=
    overtaken
  have around : wrap 32 (2 ^ 32 - 1 + 1) = 0 := by decide
  rw [around] at counter waits
  have notWaiting : (0 : Nat) ≠ waiting := by
    rintro rfl
    rw [waits] at populates
    cases populates
  let s₁ : Refill Nat := { s with
    pc := Function.update s.pc waiting (.asleep 0 (2 ^ 32 - 1 + 1)) }
  have step₁ : Step s s₁ := by
    have sleeps := Step.futexWait waiting 0 (2 ^ 32 - 1 + 1) waits
    rwa [if_pos counter] at sleeps
  have turns₁ : ∀ u n, (s₁.pc u).turn? = some n → 2 ^ 32 - 1 + 1 ≤ n := by
    apply turns_update turns
    intro n own
    cases own
    exact le_rfl
  have same : s.increments ≤ 2 ^ 32 - 1 + 1 + 1 := increments ▸ Nat.le_succ _
  have reached₁ := reached.step ⟨step₁, waitsBounded_of_turns turns₁ same⟩
  have populates₁ : s₁.pc 0 = .populating := (Function.update_of_ne notWaiting _ _).trans populates
  have turns₂ := turns_update (t := 0) (p := .resetting 0) turns₁ (by simp [RefillPc.turn?])
  have reached₂ := reached₁.step ⟨.fail 0 populates₁ more, waitsBounded_of_turns turns₂ same⟩
  have turns₃ := turns_update (t := 0) (p := .notifying (some 0)) turns₂ (by simp [RefillPc.turn?])
  have reached₃ := reached₂.step
    ⟨.reset 0 0 rfl lock, waitsBounded_of_turns turns₃ same⟩
  have reached₄ := reached₃.step
    ⟨.store 0 rfl, waitsBounded_of_turns turns₃ (Nat.succ_le_succ increments.le)⟩
  have increments' : s.increments + 1 ≤ 2 ^ 32 - 1 + 1 + 1 := Nat.succ_le_succ increments.le
  have skip : ¬s.lastNotifyAll ≠ s.counter := by
    rw [last, counter]
    exact not_not.mpr rfl
  have reached₅ := reached₄.step ⟨.wake 0 s.counter rfl, by
    dsimp only
    rw [if_neg skip]
    exact waitsBounded_of_turns turns₃ increments'⟩
  dsimp only at reached₅
  rw [if_neg skip] at reached₅
  have turns₆ := turns_update (t := 0) (p := .returned 0) turns₃ (by simp [RefillPc.turn?])
  have reached₆ := reached₅.step
    ⟨.note 0 s.counter (some 0) rfl rfl, waitsBounded_of_turns turns₆ increments'⟩
  refine ⟨_, waiting, 0, 2 ^ 32 - 1 + 1, reached₆, ?_, rfl, ?_⟩
  · simp [s₁, notWaiting.symm]
  · intro u about
    simp [AboutToWake] at about

end Refill

end Scudo.Primary
