import Scudo.Lib.LockOrder
import Mathlib.Data.Fintype.Order

/-!
The locks that `retrieve` and `store` take. The lock of an arena stands in its shared header, so
that the arenas of one core in all processes have the same one.
-/

namespace Scudo.SharedArena
open Scudo.Lib

/-- `CoreId`, a `u32`. -/
abbrev CoreId := Fin (2 ^ 32)

/-- The conditions that `retrieve` branches on after its checks: whether pages are available, the
headers fit in front of the aligned position, and the log takes the entry. -/
structure RetrieveBranches where
  initialized : Bool
  pages : Bool
  fits : Bool
  logged : Bool
  deriving DecidableEq, Repr

/-- The same for `store`. -/
structure StoreBranches where
  initialized : Bool
  validRange : Bool
  logged : Bool
  freelistDisabled : Bool
  deriving DecidableEq, Repr

/-- The locks that a call of `retrieve` takes and gives back. -/
def retrieveLocks (core : CoreId) (b : RetrieveBranches) : List (LockOp CoreId) :=
  if b.initialized = false then []
  else
    .acquire core ::
      if b.pages = false then [.release core]
      else if b.fits = false then [.release core]
      else if b.logged = false then [.release core]
      else [.release core]

/-- Both locks, the one of the lower core first. -/
def lockBoth (core log : CoreId) : List (LockOp CoreId) :=
  if log = core then [.acquire core]
  else if log < core then [.acquire log, .acquire core]
  else [.acquire core, .acquire log]

/-- The same for `store`; a missing `LogArena` is replaced by the arena itself. A pool has one arena for
each core, so that two arenas are the same if their cores are. -/
def storeLocks (core : CoreId) (logArena : Option CoreId) (b : StoreBranches) :
    List (LockOp CoreId) :=
  let log := logArena.getD core
  if b.initialized = false then []
  else if b.validRange = false then []
  else
    lockBoth core log ++
      if b.logged = false then (if log ≠ core then [.release log] else []) ++ [.release core]
      else
        (if log ≠ core then [.release log] else []) ++
          if b.freelistDisabled then [.release core]
          else [.release core]

/-- The calls of all threads in all processes. -/
inductive ArenaProgram : List (LockOp CoreId) → Prop
  | retrieve (core : CoreId) (b : RetrieveBranches) : ArenaProgram (retrieveLocks core b)
  | store (core : CoreId) (logArena : Option CoreId) (b : StoreBranches) :
      ArenaProgram (storeLocks core logArena b)

/-- One lock, taken and given back. -/
theorem disciplined_one (core : CoreId) : Disciplined [] [.acquire core, .release core] := by
  simp [Disciplined]

/-- Both locks are taken in order, whichever is the lower one, and given back. -/
theorem disciplined_two {core log : CoreId} (different : log ≠ core) :
    Disciplined [] (lockBoth core log ++ [.release log, .release core]) := by
  unfold lockBoth
  rw [if_neg different]
  by_cases lower : log < core
  · rw [if_pos lower]
    simp [Disciplined, lower, different.symm]
  · have higher : core < log := lt_of_le_of_ne (not_lt.mp lower) different.symm
    rw [if_neg lower]
    simp [Disciplined, higher]

theorem retrieveLocks_disciplined (core : CoreId) (b : RetrieveBranches) :
    Disciplined [] (retrieveLocks core b) := by
  unfold retrieveLocks
  split_ifs
  · rfl
  all_goals exact disciplined_one core

theorem storeLocks_disciplined (core : CoreId) (logArena : Option CoreId) (b : StoreBranches) :
    Disciplined [] (storeLocks core logArena b) := by
  unfold storeLocks
  dsimp only
  by_cases same : logArena.getD core = core
  · rw [same]
    unfold lockBoth
    split_ifs
    · rfl
    · rfl
    all_goals first
      | exact disciplined_one core
      | contradiction
  · split_ifs
    · rfl
    · rfl
    all_goals exact disciplined_two same

theorem ArenaProgram.disciplined {program : List (LockOp CoreId)} (allowed : ArenaProgram program) :
    Disciplined [] program := by
  cases allowed with
  | retrieve core b => exact retrieveLocks_disciplined core b
  | store core logArena b => exact storeLocks_disciplined core logArena b

/-- All threads of all processes. -/
def lockSystem (τ : Type*) [DecidableEq τ] : System (Locks τ CoreId) := Locks.system τ ArenaProgram

/-- In every interleaving some holder of a lock can go on whenever a thread waits for one, a call that
has returned holds no lock, and no call gives back a lock that it does not hold. -/
theorem arena_locks_progress {τ : Type*} [DecidableEq τ] {s : Locks τ CoreId}
    (reached : (lockSystem τ).Reachable s) :
    (∀ t, s.Waits t → ∃ u lock, lock ∈ (s.actor u).held ∧ ¬s.Waits u) ∧
    (∀ t, (s.actor t).todo = [] → (s.actor t).held = []) ∧
    (∀ t lock rest, (s.actor t).todo = .release lock :: rest → lock ∈ (s.actor t).held) ∧
    ∀ lock t u, lock ∈ (s.actor t).held → lock ∈ (s.actor u).held → t = u := by
  have ordered := Locks.reachable_ordered (fun program => ArenaProgram.disciplined) reached
  refine ⟨fun t waits => ordered.no_deadlock waits, ?_, ?_, fun lock => ordered.sole lock⟩
  · intro t done
    have rest := ordered.disciplined t
    rw [done] at rest
    exact rest
  · intro t lock rest todo
    have next := ordered.disciplined t
    rw [todo] at next
    exact next.1

/-- A `store` holds the lock of core 0 and is about to take that of core 1, while a `retrieve` waits for
core 0. -/
theorem arena_locks_progress_waiting :
    ∃ s : Locks Nat CoreId, s.Waits 1 ∧ ∃ u lock, lock ∈ (s.actor u).held ∧ ¬s.Waits u := by
  have start : (lockSystem Nat).Reachable ⟨fun _ => false, fun _ => ⟨[], [], false⟩⟩ :=
    System.Reachable.init rfl
  have stores := start.step (Locks.Step.call 0 _
    (ArenaProgram.store 1 (some 0) ⟨true, true, true, false⟩) rfl)
  have locked := stores.step (Locks.Step.acquire 0 0 _ rfl rfl rfl)
  have retrieves := locked.step (Locks.Step.call 1 _
    (ArenaProgram.retrieve 0 ⟨true, true, true, true⟩) rfl)
  have progress := (arena_locks_progress retrieves).1 1 ⟨0, _, rfl, rfl⟩
  exact ⟨_, ⟨0, _, rfl, rfl⟩, progress⟩

end Scudo.SharedArena
