import Scudo.Lib.Threads
import Scudo.Lib.Transition
import Mathlib.Order.WellFounded
import Mathlib.Data.List.Nodup

/-!
Spin locks that every thread takes in increasing order. A program is the sequence of the locks
that it takes and gives back; when each one takes no lock below one that it holds, and gives back
what it holds, the threads cannot wait for each other in a circle.
-/

namespace Scudo.Lib

inductive LockOp (α : Type*) where
  | acquire (lock : α)
  | release (lock : α)

/-- A thread: what it still has to do, what it holds, and whether it has found its next lock taken
and waits for the word to change. -/
structure Actor (α : Type*) where
  todo : List (LockOp α)
  held : List α
  spinning : Bool

/-- The word of every lock, and the threads. -/
structure Locks (τ α : Type*) where
  word : α → Bool
  actor : τ → Actor α

section Discipline

variable {α : Type*} [LinearOrder α]

/-- From these locks on, the program takes only greater ones, gives back what it holds, and ends with
none. -/
def Disciplined : List α → List (LockOp α) → Prop
  | held, [] => held = []
  | held, .acquire lock :: rest => (∀ other ∈ held, other < lock) ∧ Disciplined (lock :: held) rest
  | held, .release lock :: rest => lock ∈ held ∧ Disciplined (held.erase lock) rest

end Discipline

namespace Locks

variable {τ α : Type*} [DecidableEq τ]

def setActor (s : Locks τ α) (t : τ) (actor : Actor α) : Locks τ α :=
  { s with actor := Function.update s.actor t actor }

section Threads

variable {s : Locks τ α} {t u : τ} {actor : Actor α}

@[simp] theorem setActor_self : (s.setActor t actor).actor t = actor := by
  simp [setActor]

theorem setActor_other (different : u ≠ t) : (s.setActor t actor).actor u = s.actor u := by
  simp [setActor, different]

/-- What holds of all threads still does when it holds of the new state of one of them. -/
theorem forall_actor (P : Actor α → Prop) (all : ∀ u, P (s.actor u)) (new : P actor) :
    ∀ u, P ((s.setActor t actor).actor u) := by
  intro u
  by_cases same : u = t
  · subst same
    rwa [setActor_self]
  · rw [setActor_other same]
    exact all u

end Threads

variable [LinearOrder α]

/-- Every access to a word is a step. A thread that starts runs one of `programs`. -/
inductive Step (programs : List (LockOp α) → Prop) : Locks τ α → Locks τ α → Prop
  | call {s : Locks τ α} (t : τ) (program : List (LockOp α)) (allowed : programs program)
      (idle : (s.actor t).todo = []) :
      Step programs s (s.setActor t ⟨program, (s.actor t).held, false⟩)
  /-- The exchange succeeds. -/
  | acquire {s : Locks τ α} (t : τ) (lock : α) (rest : List (LockOp α))
      (todo : (s.actor t).todo = .acquire lock :: rest) (tries : (s.actor t).spinning = false)
      (free : s.word lock = false) :
      Step programs s
        { (s.setActor t ⟨rest, lock :: (s.actor t).held, false⟩) with
          word := Function.update s.word lock true }
  /-- The exchange fails. -/
  | miss {s : Locks τ α} (t : τ) (lock : α) (rest : List (LockOp α))
      (todo : (s.actor t).todo = .acquire lock :: rest) (tries : (s.actor t).spinning = false)
      (taken : s.word lock = true) :
      Step programs s (s.setActor t { s.actor t with spinning := true })
  /-- The thread reads the word while it spins. -/
  | spin {s : Locks τ α} (t : τ) (lock : α) (rest : List (LockOp α))
      (todo : (s.actor t).todo = .acquire lock :: rest) (spins : (s.actor t).spinning = true) :
      Step programs s (s.setActor t { s.actor t with spinning := s.word lock })
  /-- The word is cleared, whoever holds the lock. -/
  | release {s : Locks τ α} (t : τ) (lock : α) (rest : List (LockOp α))
      (todo : (s.actor t).todo = .release lock :: rest) :
      Step programs s
        { (s.setActor t ⟨rest, (s.actor t).held.erase lock, false⟩) with
          word := Function.update s.word lock false }

/-- All locks are free and no thread runs. -/
def system (τ : Type*) [DecidableEq τ] (programs : List (LockOp α) → Prop) : System (Locks τ α) :=
  ⟨fun s => s = ⟨fun _ => false, fun _ => ⟨[], [], false⟩⟩, Step programs⟩

/-- The thread cannot go on: its next lock is taken. -/
def Waits (s : Locks τ α) (t : τ) : Prop :=
  ∃ lock rest, (s.actor t).todo = .acquire lock :: rest ∧ s.word lock = true

/-- Every lock has its word set exactly while one thread holds it, and what remains of every program
keeps to the order. -/
structure Ordered (s : Locks τ α) : Prop where
  disciplined : ∀ t, Disciplined (s.actor t).held (s.actor t).todo
  nodup : ∀ t, (s.actor t).held.Nodup
  word : ∀ lock, s.word lock = true ↔ ∃ t, lock ∈ (s.actor t).held
  sole : ∀ lock, Sole (fun actor : Actor α => lock ∈ actor.held) s.actor

section Steps

variable {programs : List (LockOp α) → Prop} {s s' : Locks τ α} {t u : τ} {actor : Actor α}
  {lock : α} {rest : List (LockOp α)}

/-- A thread that goes on without a change of what it holds. -/
theorem Ordered.keep (ordered : s.Ordered) (held : actor.held = (s.actor t).held)
    (disciplined : Disciplined actor.held actor.todo) : (s.setActor t actor).Ordered := by
  have same : ∀ lock, lock ∈ actor.held ↔ lock ∈ (s.actor t).held := fun lock => by rw [held]
  constructor
  · exact forall_actor (fun a => Disciplined a.held a.todo) ordered.disciplined disciplined
  · apply forall_actor (fun a => a.held.Nodup) ordered.nodup
    rw [held]
    exact ordered.nodup t
  · intro lock
    exact (ordered.word lock).trans
      (exists_update_iff (fun a : Actor α => lock ∈ a.held) (same lock)).symm
  · intro lock
    by_cases inside : lock ∈ (s.actor t).held
    · exact (ordered.sole lock).stay inside
    · exact (ordered.sole lock).leave (fun member => inside ((same lock).mp member))

/-- A thread that changes what it holds at one lock alone, together with the word of this lock. -/
theorem Ordered.change {taken : Bool} (ordered : s.Ordered)
    (disciplined : Disciplined actor.held actor.todo) (nodup : actor.held.Nodup)
    (keeps : ∀ other, other ≠ lock → (other ∈ actor.held ↔ other ∈ (s.actor t).held))
    (word : taken = true ↔ ∃ u, lock ∈ ((s.setActor t actor).actor u).held)
    (sole : Sole (fun a : Actor α => lock ∈ a.held) (s.setActor t actor).actor) :
    Ordered { (s.setActor t actor) with word := Function.update s.word lock taken } := by
  constructor
  · exact forall_actor (fun a => Disciplined a.held a.todo) ordered.disciplined disciplined
  · exact forall_actor (fun a => a.held.Nodup) ordered.nodup nodup
  · intro other
    dsimp only
    by_cases same : other = lock
    · subst same
      rw [Function.update_self]
      exact word
    · rw [Function.update_of_ne same, ordered.word other]
      exact (exists_update_iff (fun a : Actor α => other ∈ a.held) (keeps other same)).symm
  · intro other
    by_cases same : other = lock
    · subst same
      exact sole
    · by_cases inside : other ∈ (s.actor t).held
      · exact (ordered.sole other).stay inside
      · exact (ordered.sole other).leave (fun member => inside ((keeps other same).mp member))

theorem Ordered.acquire (ordered : s.Ordered) (todo : (s.actor t).todo = .acquire lock :: rest)
    (free : s.word lock = false) :
    Ordered { (s.setActor t ⟨rest, lock :: (s.actor t).held, false⟩) with
      word := Function.update s.word lock true } := by
  have nobody : ∀ u, lock ∉ (s.actor u).held := by
    intro u member
    rw [(ordered.word lock).mpr ⟨u, member⟩] at free
    cases free
  have next := ordered.disciplined t
  rw [todo] at next
  refine ordered.change next.2 (List.nodup_cons.mpr ⟨nobody t, ordered.nodup t⟩) ?_ ?_ ?_
  · intro other different
    simp [different]
  · exact iff_of_true rfl ⟨t, by rw [setActor_self]; exact List.mem_cons_self⟩
  · exact Sole.enter nobody

theorem Ordered.release (ordered : s.Ordered) (todo : (s.actor t).todo = .release lock :: rest) :
    Ordered { (s.setActor t ⟨rest, (s.actor t).held.erase lock, false⟩) with
      word := Function.update s.word lock false } := by
  have next := ordered.disciplined t
  rw [todo] at next
  have nodup := ordered.nodup t
  have gone : lock ∉ (s.actor t).held.erase lock := nodup.not_mem_erase
  refine ordered.change next.2 (nodup.erase lock) ?_ ?_ ?_
  · intro other different
    exact List.mem_erase_of_ne different
  · exact iff_of_false Bool.false_ne_true ((ordered.sole lock).left_none next.1 gone)
  · exact (ordered.sole lock).leave gone

theorem Ordered.step (disciplined : ∀ program, programs program → Disciplined [] program)
    (ordered : s.Ordered) (step : Step programs s s') : s'.Ordered := by
  cases step with
  | call t program allowed idle =>
    have done := ordered.disciplined t
    rw [idle] at done
    have free : (s.actor t).held = [] := done
    rw [free]
    exact ordered.keep free.symm (disciplined program allowed)
  | acquire t lock rest todo tries free => exact ordered.acquire todo free
  | miss t lock rest todo tries taken => exact ordered.keep rfl (ordered.disciplined t)
  | spin t lock rest todo spins => exact ordered.keep rfl (ordered.disciplined t)
  | release t lock rest todo => exact ordered.release todo

theorem reachable_ordered (disciplined : ∀ program, programs program → Disciplined [] program)
    (reached : (system τ programs).Reachable s) : s.Ordered := by
  apply reached.invariant
  · rintro _ rfl
    constructor
    · intro t
      rfl
    · intro t
      exact List.nodup_nil
    · intro lock
      exact iff_of_false Bool.false_ne_true (by simp)
    · intro lock t u held
      cases held
  · intro s s' ordered step
    exact ordered.step disciplined step

omit [DecidableEq τ] in
/-- Behind every wait there is a thread that holds a lock and can go on. -/
theorem Ordered.no_deadlock [WellFoundedGT α] (ordered : s.Ordered) (waits : s.Waits t) :
    ∃ u lock, lock ∈ (s.actor u).held ∧ ¬s.Waits u := by
  obtain ⟨lock, rest, todo, taken⟩ := waits
  -- the holder of a lock waits, if at all, for a greater one
  induction lock using WellFoundedGT.induction generalizing t rest with
  | ind lock ih =>
    obtain ⟨u, held⟩ := (ordered.word lock).mp taken
    by_cases stuck : s.Waits u
    · obtain ⟨next, rest', todo', taken'⟩ := stuck
      have order := ordered.disciplined u
      rw [todo'] at order
      exact ih next (order.1 lock held) rest' todo' taken'
    · exact ⟨u, lock, held, stuck⟩

end Steps

end Locks

end Scudo.Lib
