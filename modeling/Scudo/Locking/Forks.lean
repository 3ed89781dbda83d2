import Scudo.Locking.Ordered
import Scudo.Primary.BlockPlaces

/-!
All threads of a process, with any calls in any order, and the child that is left after a `fork`
between `disable` and `enable`.
-/

namespace Scudo.Locking
open Scudo.Lib SharedArena Primary Allocator64 AllocatorLock

variable {n t : Nat} [NeZero n] [NeZero t] {τ : Type} [DecidableEq τ] {c : Config n t}

/-- Behind every wait there is a thread that holds a lock and can go on, unless it ends the process; what
is given back, and what a thread relies on, is held; no lock is held twice, and none by a thread that
has returned. -/
structure LocksSafe (s : Plans τ (AllocatorLock n t)) : Prop where
  progress : ∀ u, s.Waits u → ∃ v, (∃ lock, lock ∈ (s.thread v).held) ∧
    ((∃ s', Plans.Turn v s s') ∨ (s.thread v).todo = .stop)
  released : ∀ u lock next, (s.thread u).todo = .release lock next → lock ∈ (s.thread u).held
  asserted : ∀ u locks next, (s.thread u).todo = .check locks next →
    ∀ lock ∈ locks, lock ∈ (s.thread u).held
  exclusive : ∀ lock u v, lock ∈ (s.thread u).held → lock ∈ (s.thread v).held → u = v
  returned : ∀ u, (s.thread u).todo = .done () → (s.thread u).held = []

omit [NeZero n] [NeZero t] in
theorem locksSafe_of_sound {s : Plans τ (AllocatorLock n t)} (sound : s.Sound) : LocksSafe s where
  progress _ waits := sound.no_deadlock waits
  released _ _ _ todo := sound.releases todo
  asserted _ _ _ todo := sound.checked todo
  exclusive lock := sound.sole lock
  returned _ idle := sound.idle idle

/-- The locks that `disable` does not take; without a ring buffer there is no depot. -/
def leftOut (depot : Bool) : AllocatorLock n t → Prop
  | mutexTSDs | bufferPoolMutex | arena _ => True
  | ringEndMu => depot = false
  | _ => False

omit [DecidableEq τ] in
theorem mem_disabledLocks {depot : Bool} {lock : AllocatorLock n t} (inside : ¬leftOut depot lock) :
    lock ∈ Allocator.disabledLocks c depot := by
  have listed : ∀ index : Fin t, index ∈ TSDRegistry.disabledTSDs c.registry := by
    intro index
    cases kind : c.registry with
    | exclusive =>
      have one := c.exclusive_one kind
      subst one
      exact List.mem_singleton.mpr (Subsingleton.elim index 0)
    | shared => exact List.mem_finRange index
  unfold Allocator.disabledLocks Allocator.registryLocks
  cases lock with
  | mmLock I => simp [mem_allRegionLocks]
  | flLock I => simp [mem_allRegionLocks]
  | tsd index => simp [listed]
  | ringEndMu =>
    have there : depot = true := by simpa [leftOut] using inside
    simp [there]
  | mutexTSDs => simp [leftOut] at inside
  | bufferPoolMutex => simp [leftOut] at inside
  | arena core => simp [leftOut] at inside
  | _ => simp

/-- In every run of any number of threads, which call `disable` and `enable` in pairs, as
`whileDisabled`, the locks are safe. At a `fork` between the two the other threads hold no locks but
those that `disable` leaves out; if they hold none of these either, the locks are safe in every run of
the child. -/
theorem allocator_locks_safe {s : Plans τ (AllocatorLock n t)}
    (reached : (Plans.system (Allocator.Call c) (Plans.start τ _)).Reachable s) :
    LocksSafe s ∧
    ∀ u depot next, (s.thread u).todo = .check (Allocator.disabledLocks c depot) next →
      (∀ v, v ≠ u → ∀ lock ∈ (s.thread v).held, leftOut depot lock) ∧
      ((∀ v, v ≠ u → (s.thread v).held = []) → ∀ s',
        (Plans.system (Allocator.Call c) (s.alone u)).Reachable s' → LocksSafe s') := by
  have keeps : ∀ plan, Allocator.Call c plan → plan.Keeps [] := fun plan call => call.keeps c
  have sound := Plans.start_sound.run keeps reached
  refine ⟨locksSafe_of_sound sound, ?_⟩
  intro u depot next todo
  constructor
  · intro v other lock inside
    by_contra taken
    exact other (sound.sole lock v u inside (sound.checked todo lock (mem_disabledLocks taken)))
  · intro free s' later
    exact locksSafe_of_sound ((sound.alone free).run keeps later)

/-- One shared TSD. -/
def Config.oneShared (primary : BlockConfig n) (quarantineClassId : Fin n)
    (quarantineClassId_ne : quarantineClassId ≠ 0) : Config n 1 where
  primary := primary
  registry := .shared
  exclusive_one _ := rfl
  quarantineClassId := quarantineClassId
  quarantineClassId_ne := quarantineClassId_ne

omit [NeZero n] [NeZero t] in
/-- A child starts with what `fork` leaves of its parent. -/
theorem alone_reachable {plans : LockPlan n t Unit → Prop} {start s : Plans τ (AllocatorLock n t)}
    (_parent : (Plans.system plans start).Reachable s) (u : τ) :
    (Plans.system plans (s.alone u)).Reachable (s.alone u) := .init rfl

/-- One thread is about to call `fork`, while the other is in `setNumberOfTSDs`. When that has
returned, a child can be left alone, which calls `enable` and is in `setNumberOfTSDs` itself. -/
theorem allocator_locks_safe_fork : ∃ s s' child : Plans (Fin 2) (AllocatorLock 2 1),
    (∃ next, (s.thread 0).todo =
      .check (Allocator.disabledLocks (.oneShared twoClasses 1 (by decide)) true) next) ∧
    (s.thread 1).held = [mutexTSDs] ∧ LocksSafe s ∧ leftOut true (mutexTSDs : AllocatorLock 2 1) ∧
    (s'.thread 1).held = [] ∧ (s'.thread 0).held.length = 13 ∧
    (Plans.system (Allocator.Call (.oneShared twoClasses 1 (by decide))) (s'.alone 0)).Reachable child ∧
    (child.thread 0).held = [mutexTSDs] ∧ LocksSafe child := by
  have start : (Plans.system (Allocator.Call (.oneShared twoClasses 1 (by decide)))
    (Plans.start (Fin 2) _)).Reachable _ := .init rfl
  have counts := start.step (.call 1 _ (.setOption true) rfl)
  have counts := counts.step (.turn 1 (.branch rfl true))
  have counts := counts.step (.turn 1 (.acquire rfl rfl))
  have forks := counts.step (.call 0 _ .whileDisabled rfl)
  have forks := forks.step (.turn 0 (.branch rfl true))
  iterate 12 have forks := forks.step (.turn 0 (.acquire rfl rfl))
  have forks := forks.step (.turn 0 (.branch rfl true))
  have forks := forks.step (.turn 0 (.acquire rfl rfl))
  have forks := forks.step (.turn 0 (.branch rfl 0))
  obtain ⟨safe, left⟩ := allocator_locks_safe forks
  have returned := forks.step (.turn 1 (.release rfl))
  obtain ⟨_, children⟩ := allocator_locks_safe returned
  have child := alone_reachable returned 0
  have child := child.step (.turn 0 (.check rfl))
  iterate 13 have child := child.step (.turn 0 (.release rfl))
  have child := child.step (.call 0 _ (.setOption true) rfl)
  have child := child.step (.turn 0 (.branch rfl true))
  have child := child.step (.turn 0 (.acquire rfl rfl))
  have spared := (children 0 true _ rfl).2 (fun v other => by
    match v, other with
    | 1, _ => rfl) _ child
  exact ⟨_, _, _, ⟨_, rfl⟩, rfl, safe, (left 0 true _ rfl).1 1 (by decide) _ List.mem_cons_self,
    rfl, rfl, child, rfl, spared⟩

end Scudo.Locking
