import Scudo.Lib.Guarded
import Scudo.Lib.LockOrder

/-!
Threads that take locks in increasing order, where what a thread does next may depend on data and on
whether a lock was free. A plan keeps the locks of a program and lets each branch on data go either
way. The rules for plans are composed as the plans are; when all plans of a system keep to the order,
the threads cannot wait for each other in a circle.
-/

namespace Scudo.Lib

/-- What a thread does with locks. `check` stands where the thread relies on locks that it holds, and
`stop` ends the process. -/
inductive Plan (α β : Type) : Type 1
  | done (result : β)
  | stop
  | acquire (lock : α) (next : Plan α β)
  | tryLock (lock : α) (next : Bool → Plan α β)
  | release (lock : α) (next : Plan α β)
  | check (locks : List α) (next : Plan α β)
  | branch {ι : Type} (nonempty : Nonempty ι) (next : ι → Plan α β)

namespace Plan

section Programs

variable {α β γ δ : Type}

def bind : Plan α β → (β → Plan α γ) → Plan α γ
  | .done result, k => k result
  | .stop, _ => .stop
  | .acquire lock next, k => .acquire lock (next.bind k)
  | .tryLock lock next, k => .tryLock lock fun got => (next got).bind k
  | .release lock next, k => .release lock (next.bind k)
  | .check locks next, k => .check locks (next.bind k)
  | .branch nonempty next, k => .branch nonempty fun i => (next i).bind k

instance : Monad (Plan α) where
  pure := .done
  bind := bind

def lock (l : α) : Plan α Unit := .acquire l (.done ())

def attempt (l : α) : Plan α Bool := .tryLock l .done

def unlock (l : α) : Plan α Unit := .release l (.done ())

def assertHeld (locks : List α) : Plan α Unit := .check locks (.done ())

/-- A value that the plan does not know. -/
def choose (ι : Type) [nonempty : Nonempty ι] : Plan α ι := .branch nonempty .done

/-- A block with a lock that is given back at its end. -/
def withLock (l : α) (body : Plan α β) : Plan α β := do
  lock l
  let result ← body
  unlock l
  return result

/-- A loop over known items, and one with an unknown number of rounds. -/
def forEach (body : δ → Plan α Unit) : List δ → Plan α Unit
  | [] => pure ()
  | item :: rest => do
    body item
    forEach body rest

def loop (body : Plan α Unit) : Plan α Unit := do
  let rounds ← choose Nat
  forEach (fun _ => body) (List.range rounds)

/-- A sequence of locks that are taken and given back. -/
def ofOps (name : γ → α) : List (LockOp γ) → Plan α Unit
  | [] => pure ()
  | .acquire l :: rest => .acquire (name l) (ofOps name rest)
  | .release l :: rest => .release (name l) (ofOps name rest)

/-- The locks of a program whose resources are guarded: a resource is touched while its lock is held. -/
def ofProg {κ ι ο : Type} {ρ : ι → Type} [Nonempty (ο × κ)] [∀ i, Nonempty (ρ i)] (name : ι → α) :
    Guarded.Prog κ ρ ο β → Plan α β
  | .done result => .done result
  | .onOwn _ next => .branch (inferInstance : Nonempty (ο × κ)) fun x => ofProg name (next x.1 x.2)
  | .onHeld i _ next =>
      .check [name i] (.branch (inferInstance : Nonempty ((ο × κ) × ρ i)) fun x =>
        ofProg name (next x.1.1 x.1.2 x.2))
  | .lock i next => .acquire (name i) (ofProg name next)
  | .unlock i next => .release (name i) (ofProg name next)
  | .stop => .stop
  | .fault => .stop

end Programs

section Rules

variable {α β γ δ : Type} [Preorder α] [DecidableEq α]

/-- From these locks on, the plan waits for greater locks only, gives back what it holds, holds what
it relies on, and ends as the postcondition says. -/
def Ordered : Plan α β → List α → (β → List α → Prop) → Prop
  | .done result, held, post => post result held
  | .stop, _, _ => True
  | .acquire lock next, held, post => (∀ other ∈ held, other < lock) ∧ Ordered next (lock :: held) post
  | .tryLock lock next, held, post =>
      lock ∉ held ∧ Ordered (next true) (lock :: held) post ∧ Ordered (next false) held post
  | .release lock next, held, post => lock ∈ held ∧ Ordered next (held.erase lock) post
  | .check locks next, held, post => (∀ lock ∈ locks, lock ∈ held) ∧ Ordered next held post
  | .branch _ next, held, post => ∀ i, Ordered (next i) held post

/-- The plan ends with the locks that it began with. -/
def Keeps (p : Plan α β) (held : List α) : Prop := p.Ordered held fun _ after => after = held

variable {p : Plan α β} {held : List α} {post : β → List α → Prop}

theorem Ordered.bind {k : β → Plan α γ} {final : γ → List α → Prop} (first : p.Ordered held post)
    (after : ∀ result now, post result now → (k result).Ordered now final) :
    (p >>= k).Ordered held final := by
  change (p.bind k).Ordered held final
  induction p generalizing held with
  | done result => exact after result held first
  | stop => exact trivial
  | acquire lock next ih => exact ⟨first.1, ih first.2⟩
  | tryLock lock next ih => exact ⟨first.1, ih true first.2.1, ih false first.2.2⟩
  | release lock next ih => exact ⟨first.1, ih first.2⟩
  | check locks next ih => exact ⟨first.1, ih first.2⟩
  | branch nonempty next ih => exact fun i => ih i (first i)

theorem Keeps.bind {k : β → Plan α γ} {final : γ → List α → Prop} (first : p.Keeps held)
    (after : ∀ result, (k result).Ordered held final) : (p >>= k).Ordered held final := by
  refine Ordered.bind first ?_
  rintro result _ rfl
  exact after result

theorem Keeps.pure (result : β) : Keeps (pure result : Plan α β) held := rfl

theorem Ordered.choose {ι : Type} [Nonempty ι] {post : ι → List α → Prop} (each : ∀ i, post i held) :
    (Plan.choose ι : Plan α ι).Ordered held post := each

theorem Keeps.choose {ι : Type} [Nonempty ι] : (Plan.choose ι : Plan α ι).Keeps held :=
  Ordered.choose fun _ => rfl

theorem Ordered.lock {l : α} {post : Unit → List α → Prop} (above : ∀ other ∈ held, other < l)
    (holds : post () (l :: held)) : (Plan.lock l).Ordered held post := ⟨above, holds⟩

theorem Ordered.unlock {l : α} {post : Unit → List α → Prop} (holds : post () held) :
    (Plan.unlock l).Ordered (l :: held) post := by
  refine ⟨List.mem_cons_self, ?_⟩
  rw [List.erase_cons_head]
  exact holds

theorem Ordered.lock_bind {l : α} {k : Unit → Plan α γ} {final : γ → List α → Prop}
    (above : ∀ other ∈ held, other < l) (after : (k ()).Ordered (l :: held) final) :
    (Plan.lock l >>= k).Ordered held final := ⟨above, after⟩

theorem Ordered.unlock_bind {l : α} {k : Unit → Plan α γ} {final : γ → List α → Prop}
    (after : (k ()).Ordered held final) : (Plan.unlock l >>= k).Ordered (l :: held) final := by
  refine ⟨List.mem_cons_self, ?_⟩
  rw [List.erase_cons_head]
  exact after

theorem Ordered.attempt_bind {l : α} {k : Bool → Plan α γ} {final : γ → List α → Prop}
    (above : ∀ other ∈ held, other < l) (got : (k true).Ordered (l :: held) final)
    (missed : (k false).Ordered held final) : (Plan.attempt l >>= k).Ordered held final :=
  ⟨fun inside => lt_irrefl l (above l inside), got, missed⟩

theorem Keeps.assertHeld {locks : List α} (inside : ∀ lock ∈ locks, lock ∈ held) :
    (Plan.assertHeld locks).Keeps held := ⟨inside, rfl⟩

/-- What is done between `lock` and `unlock`. -/
theorem Ordered.withLock {l : α} {body : Plan α β} (above : ∀ other ∈ held, other < l)
    (inner : body.Ordered (l :: held) fun result after => after = l :: held ∧ post result held) :
    (Plan.withLock l body).Ordered held post := by
  refine Ordered.lock_bind above (Ordered.bind inner ?_)
  rintro result _ ⟨rfl, holds⟩
  exact Ordered.unlock_bind holds

theorem Keeps.withLock {l : α} {body : Plan α β} (above : ∀ other ∈ held, other < l)
    (inner : body.Keeps (l :: held)) : (Plan.withLock l body).Keeps held := by
  refine Ordered.withLock above ?_
  unfold Keeps at inner
  convert inner using 2
  simp

theorem Keeps.forEach {body : δ → Plan α Unit} {items : List δ}
    (each : ∀ item ∈ items, (body item).Keeps held) : (Plan.forEach body items).Keeps held := by
  induction items with
  | nil => exact Keeps.pure ()
  | cons item rest ih =>
    refine Keeps.bind (each item List.mem_cons_self) fun _ => ih ?_
    exact fun other inside => each other (List.mem_cons_of_mem item inside)

theorem Keeps.loop {body : Plan α Unit} (each : body.Keeps held) : (Plan.loop body).Keeps held :=
  Keeps.bind Keeps.choose fun _ => Keeps.forEach fun _ _ => each

/-- Locks that are taken in order, and those that are given back. -/
theorem Ordered.lockAll {name : δ → α} {items : List δ} (increase : (items.map name).Pairwise (· < ·))
    (above : ∀ item ∈ items, ∀ other ∈ held, other < name item) :
    (Plan.forEach (fun item => Plan.lock (name item)) items).Ordered held fun _ after =>
      after = (items.map name).reverse ++ held := by
  induction items generalizing held with
  | nil => rfl
  | cons item rest ih =>
    obtain ⟨greater, increase⟩ := List.pairwise_cons.mp increase
    refine Ordered.lock_bind (above item List.mem_cons_self) ?_
    have further : ∀ next ∈ rest, ∀ other ∈ name item :: held, other < name next := by
      intro next inside other member
      rcases List.mem_cons.mp member with rfl | member
      · exact greater _ (List.mem_map_of_mem inside)
      · exact above next (List.mem_cons_of_mem item inside) other member
    simpa using ih increase further

theorem Ordered.unlockAll (name : δ → α) (items : List δ) :
    (Plan.forEach (fun item => Plan.unlock (name item)) items).Ordered (items.map name ++ held)
      fun _ after => after = held := by
  induction items with
  | nil => rfl
  | cons item rest ih => exact Ordered.unlock_bind ih

section Guarded

variable {κ ι ο : Type} {ρ : ι → Type} [Nonempty (ο × κ)] [∀ i, Nonempty (ρ i)] {name : ι → α}
  {prog : Guarded.Prog κ ρ ο β}

omit [Preorder α] [DecidableEq α] in
theorem ofProg_bind (k : β → Guarded.Prog κ ρ ο γ) :
    ofProg name (prog >>= k) = ofProg name prog >>= fun result => ofProg name (k result) := by
  change ofProg name (prog.bind k) = (ofProg name prog).bind _
  induction prog with
  | done result => rfl
  | onOwn change next ih =>
    refine congrArg (Plan.branch _) ?_
    funext x
    exact ih x.1 x.2
  | onHeld i change next ih =>
    refine congrArg (fun rest => Plan.check [name i] (Plan.branch _ rest)) ?_
    funext x
    exact ih x.1.1 x.1.2 x.2
  | lock i next ih => exact congrArg (Plan.acquire (name i)) ih
  | unlock i next ih => exact congrArg (Plan.release (name i)) ih
  | stop => rfl
  | fault => rfl

theorem Ordered.prog_bind {k : β → Guarded.Prog κ ρ ο γ} {final : γ → List α → Prop}
    (first : (ofProg name prog).Ordered held post)
    (after : ∀ result now, post result now → (ofProg name (k result)).Ordered now final) :
    (ofProg name (prog >>= k)).Ordered held final := by
  rw [ofProg_bind]
  exact first.bind after

theorem Keeps.prog_bind {k : β → Guarded.Prog κ ρ ο γ} {final : γ → List α → Prop}
    (first : (ofProg name prog).Keeps held)
    (after : ∀ result, (ofProg name (k result)).Ordered held final) :
    (ofProg name (prog >>= k)).Ordered held final := by
  rw [ofProg_bind]
  exact first.bind after

theorem Keeps.prog_pure (result : β) :
    (ofProg name (Pure.pure result : Guarded.Prog κ ρ ο β)).Keeps held := rfl

theorem Keeps.prog_locally (f : ο → κ → κ × β) :
    (ofProg name (Guarded.Prog.locally f : Guarded.Prog κ ρ ο β)).Keeps held := fun _ => rfl

theorem Keeps.prog_under {i : ι} (f : ο → κ → ρ i → (κ × ρ i) × β) (inside : name i ∈ held) :
    (ofProg name (Guarded.Prog.under i f)).Keeps held := by
  refine ⟨?_, fun _ => rfl⟩
  intro lock member
  rw [List.mem_singleton.mp member]
  exact inside

/-- A lock that is taken, and given back at the end of the program. -/
theorem Ordered.prog_acquire {i : ι} {k : Unit → Guarded.Prog κ ρ ο γ} {final : γ → List α → Prop}
    (above : ∀ other ∈ held, other < name i)
    (after : (ofProg name (k ())).Ordered (name i :: held) final) :
    (ofProg name (Guarded.Prog.acquire i >>= k)).Ordered held final := by
  rw [ofProg_bind]
  exact ⟨above, after⟩

theorem Ordered.prog_release {i : ι} {k : Unit → Guarded.Prog κ ρ ο γ} {final : γ → List α → Prop}
    (after : (ofProg name (k ())).Ordered held final) :
    (ofProg name (Guarded.Prog.release i >>= k)).Ordered (name i :: held) final := by
  rw [ofProg_bind]
  exact Ordered.unlock_bind after

theorem Ordered.prog_last {i : ι} {final : Unit → List α → Prop} (holds : final () held) :
    (ofProg name (Guarded.Prog.release i : Guarded.Prog κ ρ ο Unit)).Ordered (name i :: held) final :=
  Ordered.unlock holds

end Guarded

/-- A disciplined sequence is ordered under names that keep the order. -/
theorem Ordered.ofOps [LinearOrder γ] {name : γ → α} (mono : StrictMono name)
    (injective : Function.Injective name) {ops : List (LockOp γ)} {now : List γ}
    (disciplined : Disciplined now ops) :
    (Plan.ofOps name ops).Ordered (now.map name) fun _ after => after = [] := by
  induction ops generalizing now with
  | nil =>
    have none : now = [] := disciplined
    rw [none]
    rfl
  | cons op rest ih =>
    cases op with
    | acquire l =>
      refine ⟨?_, ih disciplined.2⟩
      intro other inside
      obtain ⟨below, member, rfl⟩ := List.mem_map.mp inside
      exact mono (disciplined.1 below member)
    | release l =>
      refine ⟨List.mem_map_of_mem disciplined.1, ?_⟩
      have gone : (now.map name).erase (name l) = (now.erase l).map name :=
        (List.map_erase injective now).symm
      rw [gone]
      exact ih disciplined.2

end Rules

end Plan

/-- A thread: what it still has to do, and what it holds. -/
structure Planner (α : Type) where
  todo : Plan α Unit
  held : List α

/-- Whether each lock is taken, and the threads. -/
structure Plans (τ α : Type) where
  taken : α → Bool
  thread : τ → Planner α

namespace Plans

variable {τ α : Type} [DecidableEq τ]

def setThread (s : Plans τ α) (t : τ) (planner : Planner α) : Plans τ α :=
  { s with thread := Function.update s.thread t planner }

variable [DecidableEq α]

/-- A thread goes on. An attempt may fail at any time. -/
inductive Turn (t : τ) : Plans τ α → Plans τ α → Prop
  | acquire {s : Plans τ α} {lock : α} {next : Plan α Unit} (todo : (s.thread t).todo = .acquire lock next)
      (free : s.taken lock = false) :
      Turn t s { (s.setThread t ⟨next, lock :: (s.thread t).held⟩) with
        taken := Function.update s.taken lock true }
  | got {s : Plans τ α} {lock : α} {next : Bool → Plan α Unit}
      (todo : (s.thread t).todo = .tryLock lock next) (free : s.taken lock = false) :
      Turn t s { (s.setThread t ⟨next true, lock :: (s.thread t).held⟩) with
        taken := Function.update s.taken lock true }
  | missed {s : Plans τ α} {lock : α} {next : Bool → Plan α Unit}
      (todo : (s.thread t).todo = .tryLock lock next) :
      Turn t s (s.setThread t ⟨next false, (s.thread t).held⟩)
  | release {s : Plans τ α} {lock : α} {next : Plan α Unit}
      (todo : (s.thread t).todo = .release lock next) :
      Turn t s { (s.setThread t ⟨next, (s.thread t).held.erase lock⟩) with
        taken := Function.update s.taken lock false }
  | check {s : Plans τ α} {locks : List α} {next : Plan α Unit}
      (todo : (s.thread t).todo = .check locks next) :
      Turn t s (s.setThread t ⟨next, (s.thread t).held⟩)
  | branch {s : Plans τ α} {ι : Type} {nonempty : Nonempty ι} {next : ι → Plan α Unit}
      (todo : (s.thread t).todo = .branch nonempty next) (i : ι) :
      Turn t s (s.setThread t ⟨next i, (s.thread t).held⟩)

/-- A thread goes on, or one that has nothing to do begins with one of `plans`. -/
inductive Step (plans : Plan α Unit → Prop) : Plans τ α → Plans τ α → Prop
  | turn {s s' : Plans τ α} (t : τ) (turn : Turn t s s') : Step plans s s'
  | call {s : Plans τ α} (t : τ) (plan : Plan α Unit) (allowed : plans plan)
      (idle : (s.thread t).todo = .done ()) :
      Step plans s (s.setThread t ⟨plan, (s.thread t).held⟩)

def system (plans : Plan α Unit → Prop) (start : Plans τ α) : System (Plans τ α) :=
  ⟨fun s => s = start, Step plans⟩

/-- All locks are free and no thread runs. -/
def start (τ α : Type) : Plans τ α := ⟨fun _ => false, fun _ => ⟨.done (), []⟩⟩

/-- What a fork leaves to its child: the locks as they are, and one thread. -/
def alone (s : Plans τ α) (t : τ) : Plans τ α :=
  ⟨s.taken, fun u => if u = t then s.thread t else ⟨.done (), []⟩⟩

/-- The thread waits for a lock that is taken. -/
def Waits (s : Plans τ α) (t : τ) : Prop :=
  ∃ lock next, (s.thread t).todo = .acquire lock next ∧ s.taken lock = true

variable [Preorder α]

/-- Every lock is taken exactly while one thread holds it, and what is left of every plan keeps to the
order. -/
structure Sound (s : Plans τ α) : Prop where
  ordered : ∀ t, (s.thread t).todo.Ordered (s.thread t).held fun _ after => after = []
  nodup : ∀ t, (s.thread t).held.Nodup
  taken : ∀ lock, s.taken lock = true ↔ ∃ t, lock ∈ (s.thread t).held
  sole : ∀ lock, Sole (fun planner : Planner α => lock ∈ planner.held) s.thread

section Steps

variable {s s' : Plans τ α} {t : τ} {lock : α}

omit [DecidableEq α] [Preorder α] in
theorem setThread_self {planner : Planner α} : (s.setThread t planner).thread t = planner :=
  Function.update_self ..

omit [DecidableEq α] [Preorder α] in
/-- What holds of all threads still does when it holds of the new state of one of them. -/
theorem forall_thread {planner : Planner α} (P : Planner α → Prop) (all : ∀ u, P (s.thread u))
    (new : P planner) : ∀ u, P ((s.setThread t planner).thread u) := by
  intro u
  rcases eq_or_ne u t with rfl | different
  · rw [setThread_self]
    exact new
  · have other := all u
    unfold setThread
    dsimp only
    rwa [Function.update_of_ne different]

/-- A thread that goes on without a change of what it holds. -/
theorem Sound.keep {todo : Plan α Unit} (sound : s.Sound)
    (ordered : todo.Ordered (s.thread t).held fun _ after => after = []) :
    (s.setThread t ⟨todo, (s.thread t).held⟩).Sound := by
  constructor
  · exact forall_thread (fun planner => planner.todo.Ordered planner.held fun _ after => after = [])
      sound.ordered ordered
  · exact forall_thread (fun planner => planner.held.Nodup) sound.nodup (sound.nodup t)
  · intro lock
    have same : lock ∈ (⟨todo, (s.thread t).held⟩ : Planner α).held ↔ lock ∈ (s.thread t).held := Iff.rfl
    refine (sound.taken lock).trans ?_
    exact (exists_update_iff (fun planner : Planner α => lock ∈ planner.held) same).symm
  · intro lock
    by_cases inside : lock ∈ (s.thread t).held
    · exact (sound.sole lock).stay inside
    · exact (sound.sole lock).leave inside

/-- A thread that changes what it holds at one lock alone, together with this lock. -/
theorem Sound.change {todo : Plan α Unit} {held : List α} {now : Bool} (sound : s.Sound)
    (ordered : todo.Ordered held fun _ after => after = []) (nodup : held.Nodup)
    (keeps : ∀ other, other ≠ lock → (other ∈ held ↔ other ∈ (s.thread t).held))
    (taken : now = true ↔ ∃ u, lock ∈ ((s.setThread t ⟨todo, held⟩).thread u).held)
    (sole : Sole (fun planner : Planner α => lock ∈ planner.held) (s.setThread t ⟨todo, held⟩).thread) :
    Sound { (s.setThread t ⟨todo, held⟩) with taken := Function.update s.taken lock now } := by
  constructor
  · exact forall_thread (fun planner => planner.todo.Ordered planner.held fun _ after => after = [])
      sound.ordered ordered
  · exact forall_thread (fun planner => planner.held.Nodup) sound.nodup nodup
  · intro other
    dsimp only
    rcases eq_or_ne other lock with rfl | different
    · rw [Function.update_self]
      exact taken
    · rw [Function.update_of_ne different, sound.taken other]
      exact (exists_update_iff (fun planner : Planner α => other ∈ planner.held)
        (keeps other different)).symm
  · intro other
    rcases eq_or_ne other lock with rfl | different
    · exact sole
    · by_cases inside : other ∈ (s.thread t).held
      · exact (sound.sole other).stay inside
      · exact (sound.sole other).leave fun member => inside ((keeps other different).mp member)

theorem Sound.take {todo : Plan α Unit} (sound : s.Sound) (free : s.taken lock = false)
    (ordered : todo.Ordered (lock :: (s.thread t).held) fun _ after => after = []) :
    Sound { (s.setThread t ⟨todo, lock :: (s.thread t).held⟩) with
      taken := Function.update s.taken lock true } := by
  have nobody : ∀ u, lock ∉ (s.thread u).held := by
    intro u member
    rw [(sound.taken lock).mpr ⟨u, member⟩] at free
    cases free
  refine sound.change ordered (List.nodup_cons.mpr ⟨nobody t, sound.nodup t⟩) ?_ ?_ ?_
  · intro other different
    simp [different]
  · refine iff_of_true rfl ⟨t, ?_⟩
    rw [setThread_self]
    exact List.mem_cons_self
  · exact Sole.enter nobody

theorem Sound.give {todo : Plan α Unit} (sound : s.Sound) (inside : lock ∈ (s.thread t).held)
    (ordered : todo.Ordered ((s.thread t).held.erase lock) fun _ after => after = []) :
    Sound { (s.setThread t ⟨todo, (s.thread t).held.erase lock⟩) with
      taken := Function.update s.taken lock false } := by
  have nodup := sound.nodup t
  have gone : lock ∉ (s.thread t).held.erase lock := nodup.not_mem_erase
  refine sound.change ordered (nodup.erase lock) ?_ ?_ ?_
  · intro other different
    exact List.mem_erase_of_ne different
  · exact iff_of_false Bool.false_ne_true ((sound.sole lock).left_none inside gone)
  · exact (sound.sole lock).leave gone

theorem Sound.turn (sound : s.Sound) (turn : Turn t s s') : s'.Sound := by
  have ordered := sound.ordered t
  cases turn with
  | acquire todo free =>
    rw [todo] at ordered
    exact sound.take free ordered.2
  | got todo free =>
    rw [todo] at ordered
    exact sound.take free ordered.2.1
  | missed todo =>
    rw [todo] at ordered
    exact sound.keep ordered.2.2
  | release todo =>
    rw [todo] at ordered
    exact sound.give ordered.1 ordered.2
  | check todo =>
    rw [todo] at ordered
    exact sound.keep ordered.2
  | branch todo i =>
    rw [todo] at ordered
    exact sound.keep (ordered i)

theorem Sound.step {plans : Plan α Unit → Prop} (keeps : ∀ plan, plans plan → plan.Keeps [])
    (sound : s.Sound) (step : Step plans s s') : s'.Sound := by
  cases step with
  | turn t turn => exact sound.turn turn
  | call t plan allowed idle =>
    have done := sound.ordered t
    rw [idle] at done
    have free : (s.thread t).held = [] := done
    refine sound.keep ?_
    rw [free]
    exact keeps plan allowed

omit [DecidableEq τ] in
theorem start_sound : (start τ α).Sound := by
  constructor
  · exact fun _ => rfl
  · exact fun _ => List.nodup_nil
  · exact fun lock => iff_of_false Bool.false_ne_true (by simp [start])
  · intro lock t u held
    cases held

/-- Runs from a sound state, such as the start. -/
theorem Sound.run {plans : Plan α Unit → Prop} {start : Plans τ α}
    (keeps : ∀ plan, plans plan → plan.Keeps []) (sound : start.Sound)
    (reached : (system plans start).Reachable s) : s.Sound := by
  apply reached.invariant
  · rintro _ rfl
    exact sound
  · intro s s' sound step
    exact sound.step keeps step

/-- Behind every wait there is a thread that holds a lock and can go on, unless it ends the process. -/
theorem Sound.no_deadlock [WellFoundedGT α] (sound : s.Sound) (waits : s.Waits t) :
    ∃ u, (∃ lock, lock ∈ (s.thread u).held) ∧
      ((∃ s', Turn u s s') ∨ (s.thread u).todo = .stop) := by
  obtain ⟨lock, next, todo, taken⟩ := waits
  -- the holder of a lock waits, if at all, for a greater one
  induction lock using WellFoundedGT.induction generalizing t next with
  | ind lock ih =>
    obtain ⟨u, held⟩ := (sound.taken lock).mp taken
    have ordered := sound.ordered u
    cases plan : (s.thread u).todo with
    | done result =>
      rw [plan] at ordered
      have none : (s.thread u).held = [] := ordered
      rw [none] at held
      cases held
    | stop => exact ⟨u, ⟨lock, held⟩, Or.inr plan⟩
    | acquire other rest =>
      cases busy : s.taken other with
      | false => exact ⟨u, ⟨lock, held⟩, Or.inl ⟨_, Turn.acquire plan busy⟩⟩
      | true =>
        rw [plan] at ordered
        exact ih other (ordered.1 lock held) rest plan busy
    | tryLock other rest => exact ⟨u, ⟨lock, held⟩, Or.inl ⟨_, Turn.missed plan⟩⟩
    | release other rest => exact ⟨u, ⟨lock, held⟩, Or.inl ⟨_, Turn.release plan⟩⟩
    | check locks rest => exact ⟨u, ⟨lock, held⟩, Or.inl ⟨_, Turn.check plan⟩⟩
    | branch nonempty rest =>
      obtain ⟨i⟩ := nonempty
      exact ⟨u, ⟨lock, held⟩, Or.inl ⟨_, Turn.branch plan i⟩⟩

/-- Where the other threads hold nothing, nothing is lost with them. -/
theorem Sound.alone (sound : s.Sound) (free : ∀ u, u ≠ t → (s.thread u).held = []) :
    (s.alone t).Sound := by
  have same : ∀ u, ((s.alone t).thread u).held = (s.thread u).held := by
    intro u
    unfold Plans.alone
    dsimp only
    split_ifs with self
    · rw [self]
    · exact (free u self).symm
  constructor
  · intro u
    rw [same]
    unfold Plans.alone
    dsimp only
    split_ifs with self
    · rw [self]
      exact sound.ordered t
    · exact free u self
  · intro u
    rw [same]
    exact sound.nodup u
  · intro lock
    simp only [same]
    exact sound.taken lock
  · intro lock u v first second
    rw [same] at first second
    exact sound.sole lock u v first second

omit [DecidableEq τ] in
theorem Sound.idle (sound : s.Sound) (idle : (s.thread t).todo = .done ()) :
    (s.thread t).held = [] := by
  have done := sound.ordered t
  rw [idle] at done
  exact done

omit [DecidableEq τ] in
theorem Sound.releases {next : Plan α Unit} (sound : s.Sound)
    (todo : (s.thread t).todo = .release lock next) : lock ∈ (s.thread t).held := by
  have ordered := sound.ordered t
  rw [todo] at ordered
  exact ordered.1

omit [DecidableEq τ] in
theorem Sound.checked {locks : List α} {next : Plan α Unit} (sound : s.Sound)
    (todo : (s.thread t).todo = .check locks next) : ∀ lock ∈ locks, lock ∈ (s.thread t).held := by
  have ordered := sound.ordered t
  rw [todo] at ordered
  exact ordered.1

end Steps

end Plans

end Scudo.Lib
