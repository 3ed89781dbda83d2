import Scudo.Lib.Threads
import Scudo.Lib.Transition
import Scudo.Common

/-!
`HybridMutex` on Linux: every atomic operation on the word and every system call is one step of
one thread. The futex puts a thread to sleep only where the word is `Sleeping`, and may let it
go at any time.
-/

namespace Scudo.Sync
open Scudo.Lib

/-- Values of the word. -/
def unlockedWord : Nat := 0
def lockedWord : Nat := 1
def sleepingWord : Nat := 2

def numberOfTries : Nat := 32

/-- Where a thread is. -/
inductive MutexPc where
  | outside
  /-- In `lock`, before a `tryLock` after which `left` more follow. -/
  | trying (left : Nat)
  /-- In `lockSlow`, before the compare and exchange. -/
  | slow
  /-- Before an exchange to `Sleeping`. -/
  | exchanging
  /-- Before `FUTEX_WAIT`, and in it. -/
  | waiting
  | asleep
  | holding
  /-- In `unlock`, before the store and before `FUTEX_WAKE`. -/
  | storing
  | waking
  deriving DecidableEq, Repr

structure HybridMutex (τ : Type*) where
  word : Nat
  pc : τ → MutexPc

namespace HybridMutex

variable {τ : Type*} [DecidableEq τ]

/-- One thread moves, and the word becomes `word`. -/
def move (s : HybridMutex τ) (t : τ) (word : Nat) (pc : MutexPc) : HybridMutex τ :=
  ⟨word, Function.update s.pc t pc⟩

/-- The steps of thread `t`. Only a holder calls `unlock`. -/
inductive Step : HybridMutex τ → HybridMutex τ → Prop
  /-- `tryLock`, called on its own. -/
  | tryLock {s : HybridMutex τ} (t : τ) (at_ : s.pc t = .outside) :
      Step s (if s.word = unlockedWord then s.move t lockedWord .holding else s)
  | lock {s : HybridMutex τ} (t : τ) (at_ : s.pc t = .outside) :
      Step s (s.move t s.word (.trying numberOfTries))
  | trying {s : HybridMutex τ} (t : τ) (left : Nat) (at_ : s.pc t = .trying left) :
      Step s (if s.word = unlockedWord then s.move t lockedWord .holding
        else s.move t s.word (if left = 0 then .slow else .trying (left - 1)))
  | slow {s : HybridMutex τ} (t : τ) (at_ : s.pc t = .slow) :
      Step s (if s.word = unlockedWord then s.move t lockedWord .holding
        else s.move t s.word (if s.word ≠ sleepingWord then .exchanging else .waiting))
  | exchange {s : HybridMutex τ} (t : τ) (at_ : s.pc t = .exchanging) :
      Step s (s.move t sleepingWord (if s.word ≠ unlockedWord then .waiting else .holding))
  | futexWait {s : HybridMutex τ} (t : τ) (at_ : s.pc t = .waiting) :
      Step s (s.move t s.word (if s.word = sleepingWord then .asleep else .exchanging))
  /-- `FUTEX_WAIT` returns without a wake. -/
  | spurious {s : HybridMutex τ} (t : τ) (at_ : s.pc t = .asleep) :
      Step s (s.move t s.word .exchanging)
  | unlock {s : HybridMutex τ} (t : τ) (at_ : s.pc t = .holding) :
      Step s (s.move t (wsub 32 s.word 1) (if s.word ≠ lockedWord then .storing else .outside))
  | store {s : HybridMutex τ} (t : τ) (at_ : s.pc t = .storing) :
      Step s (s.move t unlockedWord .waking)
  /-- `FUTEX_WAKE` of one sleeper, and where there is none. -/
  | wake {s : HybridMutex τ} (t u : τ) (at_ : s.pc t = .waking) (sleeps : s.pc u = .asleep) :
      Step s ((s.move t s.word .outside).move u s.word .exchanging)
  | wakeNone {s : HybridMutex τ} (t : τ) (at_ : s.pc t = .waking) (none : ∀ u, s.pc u ≠ .asleep) :
      Step s (s.move t s.word .outside)

/-- Any number of threads, none of them in a call. -/
def system (τ : Type*) [DecidableEq τ] : System (HybridMutex τ) :=
  ⟨fun s => s = ⟨unlockedWord, fun _ => .outside⟩, Step⟩

/-- Between a successful lock and the end of the release in `unlock`. -/
def Owns (pc : MutexPc) : Prop := pc = .holding ∨ pc = .storing

/-- Who will make sure that sleepers are woken. -/
def Watched (s : HybridMutex τ) : Prop :=
  (s.word = sleepingWord ∧ ∃ t, s.pc t = .holding) ∨ (∃ t, s.pc t = .storing ∨ s.pc t = .waking) ∨
    ∃ t, s.pc t = .exchanging

/-- The word tells whether there is an owner, of which there is at most one, and sleepers are
watched. -/
structure Sound (s : HybridMutex τ) : Prop where
  word : s.word ≤ sleepingWord
  sole : Sole Owns s.pc
  owner : s.word ≠ unlockedWord ↔ ∃ t, Owns (s.pc t)
  watched : (∃ t, s.pc t = .asleep) → s.Watched

section Moves

variable {s : HybridMutex τ} {t u : τ} {pc : MutexPc} {word : Nat}

@[simp] theorem move_word : (s.move t word pc).word = word := rfl

@[simp] theorem move_self : (s.move t word pc).pc t = pc := by
  simp [HybridMutex.move]

theorem move_other (different : u ≠ t) : (s.move t word pc).pc u = s.pc u := by
  simp [HybridMutex.move, different]

theorem asleep_before (sleeps : (s.move t word pc).pc u = .asleep) (awake : pc ≠ .asleep) :
    s.pc u = .asleep := by
  by_cases same : u = t
  · subst same
    rw [move_self] at sleeps
    exact absurd sleeps awake
  · rwa [move_other same] at sleeps

/-- Whoever watches goes on doing so while others move, if the word stays or was not needed. -/
theorem Watched.move (watched : s.Watched) (outside : s.pc t ≠ .holding ∧ s.pc t ≠ .storing ∧
    s.pc t ≠ .waking ∧ s.pc t ≠ .exchanging) (same : s.word = sleepingWord → word = sleepingWord) :
    (s.move t word pc).Watched := by
  obtain ⟨notHolding, notStoring, notWaking, notExchanging⟩ := outside
  rcases watched with ⟨sleeping, u, holds⟩ | ⟨u, releases⟩ | ⟨u, exchanges⟩
  · have different : u ≠ t := by
      rintro rfl
      exact notHolding holds
    exact Or.inl ⟨same sleeping, u, (move_other different).trans holds⟩
  · have different : u ≠ t := by
      rintro rfl
      exact releases.elim notStoring notWaking
    rw [← move_other different] at releases
    exact Or.inr (Or.inl ⟨u, releases⟩)
  · have different : u ≠ t := by
      rintro rfl
      exact notExchanging exchanges
    exact Or.inr (Or.inr ⟨u, (move_other different).trans exchanges⟩)

/-- A thread that moves within `lock`, not into its sleep, and leaves the word alone. -/
theorem Sound.idle (sound : s.Sound) (outside : s.pc t ≠ .holding ∧ s.pc t ≠ .storing ∧
    s.pc t ≠ .waking ∧ s.pc t ≠ .exchanging) (after : ¬Owns pc ∧ pc ≠ .asleep) :
    (s.move t s.word pc).Sound := by
  have before : ¬Owns (s.pc t) := fun owns => owns.elim outside.1 outside.2.1
  refine ⟨sound.word, sound.sole.leave after.1, ?_, ?_⟩
  · exact sound.owner.trans (exists_update_iff Owns (iff_of_false after.1 before)).symm
  · rintro ⟨u, sleeps⟩
    exact (sound.watched ⟨u, asleep_before sleeps after.2⟩).move outside id

/-- A thread that finds the word unlocked, and takes the lock. -/
theorem Sound.acquire (sound : s.Sound) (free : s.word = unlockedWord)
    (outside : s.pc t ≠ .holding ∧ s.pc t ≠ .storing ∧ s.pc t ≠ .waking ∧ s.pc t ≠ .exchanging) :
    (s.move t lockedWord .holding).Sound := by
  have nobody : ∀ u, ¬Owns (s.pc u) := fun u owns => sound.owner.mpr ⟨u, owns⟩ free
  refine ⟨Nat.le_succ 1, Sole.enter nobody, ?_, ?_⟩
  · exact iff_of_true Nat.one_ne_zero ⟨t, Or.inl move_self⟩
  · rintro ⟨u, sleeps⟩
    apply (sound.watched ⟨u, asleep_before sleeps (by simp)⟩).move outside
    intro sleeping
    rw [free] at sleeping
    cases sleeping

omit [DecidableEq τ] in
/-- Where the word says `Sleeping`, its owner watches. -/
theorem watched_of_owner (sleeping : s.word = sleepingWord) (owner : ∃ u, Owns (s.pc u)) :
    s.Watched := by
  obtain ⟨u, holds | stores⟩ := owner
  · exact Or.inl ⟨sleeping, u, holds⟩
  · exact Or.inr (Or.inl ⟨u, Or.inl stores⟩)

theorem Sound.exchange (sound : s.Sound) (at_ : s.pc t = .exchanging) :
    (s.move t sleepingWord (if s.word ≠ unlockedWord then .waiting else .holding)).Sound := by
  by_cases free : s.word = unlockedWord
  · have nobody : ∀ u, ¬Owns (s.pc u) := fun u owns => sound.owner.mpr ⟨u, owns⟩ free
    rw [if_neg (by simp [free])]
    have owner : ∃ u, Owns ((s.move t sleepingWord .holding).pc u) := ⟨t, Or.inl move_self⟩
    exact ⟨le_rfl, Sole.enter nobody, iff_of_true (by simp [sleepingWord, unlockedWord]) owner,
      fun _ => watched_of_owner rfl owner⟩
  · rw [if_pos free]
    have outside : ¬Owns MutexPc.waiting := by simp [Owns]
    have owner : ∃ u, Owns ((s.move t sleepingWord .waiting).pc u) :=
      exists_update Owns (sound.owner.mp free) (by simp [Owns, at_])
    exact ⟨le_rfl, sound.sole.leave outside, iff_of_true (by simp [sleepingWord, unlockedWord]) owner,
      fun _ => watched_of_owner rfl owner⟩

theorem Sound.futexWait (sound : s.Sound) (at_ : s.pc t = .waiting) :
    (s.move t s.word (if s.word = sleepingWord then .asleep else .exchanging)).Sound := by
  by_cases sleeping : s.word = sleepingWord
  · rw [if_pos sleeping]
    have outside : ¬Owns MutexPc.asleep := by simp [Owns]
    have same : (∃ u, Owns ((s.move t s.word .asleep).pc u)) ↔ ∃ u, Owns (s.pc u) :=
      exists_update_iff Owns (iff_of_false outside (by simp [Owns, at_]))
    have owner := same.mpr (sound.owner.mp (by rw [sleeping]; decide))
    exact ⟨sound.word, sound.sole.leave outside, sound.owner.trans same.symm,
      fun _ => watched_of_owner sleeping owner⟩
  · rw [if_neg sleeping]
    exact sound.idle (by simp [at_]) (by simp [Owns])

/-- The subtraction does not wrap, and tells whether somebody may sleep. -/
theorem Sound.unlock (sound : s.Sound) (at_ : s.pc t = .holding) :
    (s.move t (wsub 32 s.word 1) (if s.word ≠ lockedWord then .storing else .outside)).Sound := by
  have owns : Owns (s.pc t) := Or.inl at_
  have held := sound.owner.mpr ⟨t, owns⟩
  have small := sound.word
  unfold unlockedWord at held
  unfold sleepingWord at small
  have lowered : wsub 32 s.word 1 = s.word - 1 := wsub_eq (by omega) (by omega)
  rw [lowered]
  by_cases locked : s.word = lockedWord
  · rw [if_neg (by simp [locked])]
    have outside : ¬Owns MutexPc.outside := by simp [Owns]
    refine ⟨by simp [HybridMutex.move, locked, lockedWord, sleepingWord], sound.sole.leave outside, ?_, ?_⟩
    · exact iff_of_false (by simp [HybridMutex.move, locked, lockedWord, unlockedWord])
        (sound.sole.left_none owns outside)
    · rintro ⟨u, sleeps⟩
      rcases sound.watched ⟨u, asleep_before sleeps (by simp)⟩ with
        ⟨sleeping, _⟩ | ⟨v, releases⟩ | ⟨v, exchanges⟩
      · rw [locked] at sleeping
        cases sleeping
      · have different : v ≠ t := by
          rintro rfl
          simp [at_] at releases
        rw [← move_other different] at releases
        exact Or.inr (Or.inl ⟨v, releases⟩)
      · have different : v ≠ t := by
          rintro rfl
          simp [at_] at exchanges
        exact Or.inr (Or.inr ⟨v, (move_other different).trans exchanges⟩)
  · rw [if_pos locked]
    unfold lockedWord at locked
    refine ⟨?_, sound.sole.stay owns, ?_, ?_⟩
    · change s.word - 1 ≤ 2
      omega
    · refine iff_of_true ?_ ⟨t, Or.inr move_self⟩
      change s.word - 1 ≠ 0
      omega
    · exact fun _ => Or.inr (Or.inl ⟨t, Or.inl move_self⟩)

theorem Sound.store (sound : s.Sound) (at_ : s.pc t = .storing) :
    (s.move t unlockedWord .waking).Sound := by
  have outside : ¬Owns MutexPc.waking := by simp [Owns]
  refine ⟨Nat.zero_le _, sound.sole.leave outside, ?_, ?_⟩
  · exact iff_of_false (fun held => held rfl) (sound.sole.left_none (Or.inr at_) outside)
  · exact fun _ => Or.inr (Or.inl ⟨t, Or.inr move_self⟩)

/-- The thread that is woken watches from then on. -/
theorem Sound.wake (sound : s.Sound) (at_ : s.pc t = .waking) (sleeps : s.pc u = .asleep) :
    ((s.move t s.word .outside).move u s.word .exchanging).Sound := by
  have first : (∃ v, Owns ((s.move t s.word .outside).pc v)) ↔ ∃ v, Owns (s.pc v) :=
    exists_update_iff Owns (by simp [Owns, at_])
  have different : u ≠ t := by
    rintro rfl
    rw [at_] at sleeps
    cases sleeps
  have still : (s.move t s.word .outside).pc u = .asleep := (move_other different).trans sleeps
  have second : (∃ v, Owns (((s.move t s.word .outside).move u s.word .exchanging).pc v)) ↔
      ∃ v, Owns ((s.move t s.word .outside).pc v) :=
    exists_update_iff Owns (by simp [Owns, still])
  refine ⟨sound.word, ?_, sound.owner.trans (second.trans first).symm, ?_⟩
  · exact (sound.sole.leave (by simp [Owns])).leave (by simp [Owns])
  · exact fun _ => Or.inr (Or.inr ⟨u, move_self⟩)

theorem Sound.wakeNone (sound : s.Sound) (at_ : s.pc t = .waking)
    (none : ∀ u, s.pc u ≠ .asleep) : (s.move t s.word .outside).Sound := by
  have same : (∃ v, Owns ((s.move t s.word .outside).pc v)) ↔ ∃ v, Owns (s.pc v) :=
    exists_update_iff Owns (by simp [Owns, at_])
  refine ⟨sound.word, sound.sole.leave (by simp [Owns]), sound.owner.trans same.symm, ?_⟩
  rintro ⟨u, sleeps⟩
  exact absurd (asleep_before sleeps (by simp)) (none u)

end Moves

theorem Sound.step {s s' : HybridMutex τ} (sound : s.Sound) (step : Step s s') : s'.Sound := by
  cases step with
  | tryLock t at_ =>
    split_ifs with free
    · exact sound.acquire free (by simp [at_])
    · exact sound
  | lock t at_ => exact sound.idle (by simp [at_]) (by simp [Owns])
  | trying t left at_ =>
    split_ifs with free
    · exact sound.acquire free (by simp [at_])
    · exact sound.idle (by simp [at_]) (by simp [Owns])
    · exact sound.idle (by simp [at_]) (by simp [Owns])
  | slow t at_ =>
    split_ifs with free
    · exact sound.acquire free (by simp [at_])
    · exact sound.idle (by simp [at_]) (by simp [Owns])
    · exact sound.idle (by simp [at_]) (by simp [Owns])
  | exchange t at_ => exact sound.exchange at_
  | futexWait t at_ => exact sound.futexWait at_
  | spurious t at_ => exact sound.idle (by simp [at_]) (by simp [Owns])
  | unlock t at_ => exact sound.unlock at_
  | store t at_ => exact sound.store at_
  | wake t u at_ sleeps => exact sound.wake at_ sleeps
  | wakeNone t at_ none => exact sound.wakeNone at_ none

theorem reachable_sound {s : HybridMutex τ} (reached : (system τ).Reachable s) : s.Sound := by
  apply reached.invariant
  · rintro _ rfl
    refine ⟨Nat.zero_le _, ?_, ?_, ?_⟩
    · intro t u owns
      simp [Owns] at owns
    · exact iff_of_false (fun held => held rfl) (by simp [Owns])
    · rintro ⟨t, sleeps⟩
      cases sleeps
  · intro s s' sound step
    exact sound.step step

end HybridMutex

/-- In every run at most one thread is between its lock and the end of its release, the word stays
one of the three values, neither the subtraction wraps nor the store hits a lock taken in between,
and no thread sleeps with nobody left to wake it. -/
theorem hybrid_mutex_safe {τ : Type*} [DecidableEq τ] {s : HybridMutex τ}
    (reached : (HybridMutex.system τ).Reachable s) :
    (∀ t u, HybridMutex.Owns (s.pc t) → HybridMutex.Owns (s.pc u) → t = u) ∧
    (s.word = unlockedWord ∨ s.word = lockedWord ∨ s.word = sleepingWord) ∧
    (∀ t, s.pc t = .holding → 1 ≤ s.word) ∧
    (∀ t, s.pc t = .storing → ∀ u, s.pc u ≠ .holding) ∧
    ((∃ t, s.pc t = .asleep) → s.Watched) := by
  have sound := HybridMutex.reachable_sound reached
  have small := sound.word
  unfold sleepingWord at small
  refine ⟨sound.sole, ?_, ?_, ?_, sound.watched⟩
  · unfold unlockedWord lockedWord sleepingWord
    omega
  · intro t holds
    have held := sound.owner.mpr ⟨t, Or.inl holds⟩
    unfold unlockedWord at held
    omega
  · intro t stores u holds
    obtain rfl := sound.sole t u (Or.inr stores) (Or.inl holds)
    rw [stores] at holds
    cases holds

section Schedules

namespace HybridMutex

variable {τ : Type*} [DecidableEq τ] {s s' : HybridMutex τ}

/-- The next step of a thread that is not about to wake another one; outside of a call it calls
`lock`, and asleep it stays. -/
def advance (s : HybridMutex τ) (t : τ) : Option (HybridMutex τ) :=
  match s.pc t with
  | .outside => some (s.move t s.word (.trying numberOfTries))
  | .trying left => some (if s.word = unlockedWord then s.move t lockedWord .holding
      else s.move t s.word (if left = 0 then .slow else .trying (left - 1)))
  | .slow => some (if s.word = unlockedWord then s.move t lockedWord .holding
      else s.move t s.word (if s.word ≠ sleepingWord then .exchanging else .waiting))
  | .exchanging =>
      some (s.move t sleepingWord (if s.word ≠ unlockedWord then .waiting else .holding))
  | .waiting => some (s.move t s.word (if s.word = sleepingWord then .asleep else .exchanging))
  | .asleep => none
  | .holding =>
      some (s.move t (wsub 32 s.word 1) (if s.word ≠ lockedWord then .storing else .outside))
  | .storing => some (s.move t unlockedWord .waking)
  | .waking => none

/-- `FUTEX_WAKE` of thread `t` picks thread `u`. -/
def rouse (s : HybridMutex τ) (t u : τ) : Option (HybridMutex τ) :=
  if s.pc t = .waking ∧ s.pc u = .asleep then
    some ((s.move t s.word .outside).move u s.word .exchanging)
  else none

/-- What a schedule picks next. -/
inductive Turn (τ : Type*)
  | of (t : τ)
  | rouse (t u : τ)

def turn (s : HybridMutex τ) : Turn τ → Option (HybridMutex τ)
  | .of t => s.advance t
  | .rouse t u => s.rouse t u

def play : HybridMutex τ → List (Turn τ) → Option (HybridMutex τ)
  | s, [] => some s
  | s, first :: rest => (s.turn first).bind fun s => s.play rest

theorem step_of_advance {t : τ} (run : s.advance t = some s') : Step s s' := by
  unfold advance at run
  split at run
  case h_1 at_ => exact Option.some.inj run ▸ Step.lock t at_
  case h_2 left at_ => exact Option.some.inj run ▸ Step.trying t left at_
  case h_3 at_ => exact Option.some.inj run ▸ Step.slow t at_
  case h_4 at_ => exact Option.some.inj run ▸ Step.exchange t at_
  case h_5 at_ => exact Option.some.inj run ▸ Step.futexWait t at_
  case h_6 => cases run
  case h_7 at_ => exact Option.some.inj run ▸ Step.unlock t at_
  case h_8 at_ => exact Option.some.inj run ▸ Step.store t at_
  case h_9 => cases run

theorem step_of_turn {choice : Turn τ} (run : s.turn choice = some s') : Step s s' := by
  cases choice with
  | of t => exact step_of_advance run
  | rouse t u =>
    simp only [turn, rouse, Option.ite_none_right_eq_some, Option.some.injEq] at run
    obtain ⟨⟨at_, sleeps⟩, rfl⟩ := run
    exact Step.wake t u at_ sleeps

/-- A schedule ends in a reachable state. -/
theorem reachable_play {turns : List (Turn τ)} (reached : (system τ).Reachable s)
    (run : s.play turns = some s') : (system τ).Reachable s' := by
  induction turns generalizing s with
  | nil =>
    cases run
    exact reached
  | cons first rest ih =>
    obtain ⟨middle, turn, run⟩ := Option.bind_eq_some_iff.mp run
    exact ih (reached.step (step_of_turn turn)) run

end HybridMutex

end Schedules

/-- Thread 0 holds the lock, and threads 1 and 2 have gone to sleep. -/
def twoSleepers : List (HybridMutex.Turn Nat) :=
  [.of 0, .of 0] ++ List.replicate 37 (.of 1) ++ List.replicate 36 (.of 2)

/-- Threads 1 and 2 sleep until thread 0 wakes thread 1, which takes the lock and watches
thread 2. -/
theorem hybrid_mutex_safe_contended :
    ∃ s s' : HybridMutex Nat,
      HybridMutex.play ⟨unlockedWord, fun _ => .outside⟩ twoSleepers = some s ∧
        s.pc 0 = .holding ∧ s.pc 1 = .asleep ∧ s.pc 2 = .asleep ∧ 1 ≤ s.word ∧ s.Watched ∧
      s.play [.of 0, .of 0, .rouse 0 1, .of 1] = some s' ∧
        s'.pc 1 = .holding ∧ s'.pc 2 = .asleep ∧ s'.Watched ∧
        ∀ u, HybridMutex.Owns (s'.pc u) → 1 = u := by
  have start : (HybridMutex.system Nat).Reachable ⟨unlockedWord, fun _ => .outside⟩ :=
    System.Reachable.init rfl
  have shape : (HybridMutex.play ⟨unlockedWord, fun _ => .outside⟩ twoSleepers).map (fun s =>
      (s.pc 0, s.pc 1, s.pc 2, (s.play [.of 0, .of 0, .rouse 0 1, .of 1]).map fun s =>
        (s.pc 1, s.pc 2))) =
      some (.holding, .asleep, .asleep, some (.holding, .asleep)) := by
    decide
  obtain ⟨s, run, rest⟩ := Option.map_eq_some_iff.mp shape
  simp only [Prod.mk.injEq, Option.map_eq_some_iff] at rest
  obtain ⟨holds, first, second, s', wakes, owns, sleeps⟩ := rest
  have reached := HybridMutex.reachable_play start run
  have safe := hybrid_mutex_safe reached
  have safe' := hybrid_mutex_safe (HybridMutex.reachable_play reached wakes)
  exact ⟨s, s', run, holds, first, second, safe.2.2.1 0 holds, safe.2.2.2.2 ⟨1, first⟩, wakes, owns,
    sleeps, safe'.2.2.2.2 ⟨2, sleeps⟩, fun u holder => safe'.1 1 u (Or.inl owns) holder⟩

end Scudo.Sync
