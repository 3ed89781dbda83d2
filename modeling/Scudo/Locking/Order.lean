import Mathlib.Order.WellFounded
import Mathlib.Tactic.Common
import Scudo.Lib.LockPlans
import Scudo.Primary.LocalCache
import Scudo.SharedArena.Locks

/-!
The locks of one process, in the order in which its threads take them, and the locks of the shared
arenas. A thread that already has some of them takes greater ones only.
-/

namespace Scudo.Locking
open Scudo.Lib SharedArena

/-- The mutexes of an `Allocator` with `n` size classes and `t` TSDs, and the spin locks of the arenas.
The only `tsd` of an exclusive registry is `FallbackTSD`. -/
inductive AllocatorLock (n t : Nat) where
  | registryMutex
  | mutexTSDs
  | tsd (i : Fin t)
  | stats
  | recycleMutex
  | cacheMutex
  | mmLock (I : Fin n)
  | flLock (I : Fin n)
  | secondaryMutex
  | secondaryCacheMutex
  | ringBufferInitLock
  | ringEndMu
  | bufferPoolMutex
  | arena (core : CoreId)
  deriving DecidableEq

variable {n t : Nat}

namespace AllocatorLock

/-- The locks of a region, as `SizeClassAllocator64` names them. -/
def region : Primary.Allocator64.Lock n → AllocatorLock n t
  | .mmLock I => .mmLock I
  | .flLock I => .flLock I

/-- A greater class comes first, and the batch class last. -/
def rank : AllocatorLock n t → Nat
  | registryMutex => 0
  | mutexTSDs => 1
  | tsd i => 2 + i
  | stats => 2 + t
  | recycleMutex => 3 + t
  | cacheMutex => 4 + t
  | mmLock I => 5 + t + 2 * (n - I)
  | flLock I => 6 + t + 2 * (n - I)
  | secondaryMutex => 7 + t + 2 * n
  | secondaryCacheMutex => 8 + t + 2 * n
  | ringBufferInitLock => 9 + t + 2 * n
  | ringEndMu => 10 + t + 2 * n
  | bufferPoolMutex => 11 + t + 2 * n
  | arena core => 12 + t + 2 * n + core

instance : Preorder (AllocatorLock n t) := Preorder.lift rank

theorem lt_iff {a b : AllocatorLock n t} : a < b ↔ a.rank < b.rank := Iff.rfl

theorem rank_lt (lock : AllocatorLock n t) : lock.rank < 12 + t + 2 * n + 2 ^ 32 := by
  cases lock with
  | tsd i =>
    have := i.isLt
    simp only [rank]
    omega
  | arena core =>
    have := core.isLt
    simp only [rank]
    omega
  | _ =>
    simp only [rank]
    omega

instance : WellFoundedGT (AllocatorLock n t) := by
  refine ⟨Subrelation.wf ?_ (measure fun lock : AllocatorLock n t =>
    12 + t + 2 * n + 2 ^ 32 - lock.rank).wf⟩
  intro a b greater
  have order : b.rank < a.rank := greater
  have bound := a.rank_lt
  change 12 + t + 2 * n + 2 ^ 32 - a.rank < 12 + t + 2 * n + 2 ^ 32 - b.rank
  omega

abbrev Below (held : List (AllocatorLock n t)) (lock : AllocatorLock n t) : Prop :=
  ∀ other ∈ held, other < lock

variable {held : List (AllocatorLock n t)} {a b : AllocatorLock n t}

theorem Below.nil : Below [] a := nofun

theorem Below.mono (below : Below held a) (less : a < b) : Below held b :=
  fun other inside => (below other inside).trans less

/-- Above `a`, once `a` is taken as well. -/
theorem Below.cons (below : Below held a) (less : a < b) : Below (a :: held) b := by
  intro other inside
  rcases List.mem_cons.mp inside with rfl | inside
  · exact less
  · exact below.mono less other inside

theorem Below.push (below : Below held b) (less : a < b) : Below (a :: held) b := by
  intro other inside
  rcases List.mem_cons.mp inside with rfl | inside
  · exact less
  · exact below other inside

end AllocatorLock

abbrev LockPlan (n t : Nat) (β : Type) := Plan (AllocatorLock n t) β

end Scudo.Locking
