import Mathlib.Algebra.BigOperators.Pi
import Scudo.Lib.Tally

/-!
Programs of threads that share resources under locks. A thread has a state of its own and the
resources whose locks it holds. A discipline says what everything is worth and what has to be true
of it, always or while the lock is free. Of a safe program every action keeps the worth, and a
resource is touched under its lock only; a turn of a safe program keeps the total.
-/

namespace Scudo.Lib.Guarded

structure Thread (κ : Type) {ι : Type} (ρ : ι → Type) where
  own : κ
  held : (i : ι) → Option (ρ i)

/-- What a thread does. Each action may depend on an outside choice. `stop` ends the process and
`fault` is what must not happen. -/
inductive Prog (κ : Type) {ι : Type} (ρ : ι → Type) (ο α : Type) : Type
  | done (a : α)
  | onOwn (change : ο → κ → κ) (next : ο → κ → Prog κ ρ ο α)
  | onHeld (i : ι) (change : ο → κ → ρ i → κ × ρ i) (next : ο → κ → ρ i → Prog κ ρ ο α)
  | lock (i : ι) (next : Prog κ ρ ο α)
  | unlock (i : ι) (next : Prog κ ρ ο α)
  | stop
  | fault

variable {κ ι ο α β : Type} {ρ : ι → Type}

namespace Prog

def bind : Prog κ ρ ο α → (α → Prog κ ρ ο β) → Prog κ ρ ο β
  | .done a, k => k a
  | .onOwn change next, k => .onOwn change fun o own => (next o own).bind k
  | .onHeld i change next, k => .onHeld i change fun o own r => (next o own r).bind k
  | .lock i next, k => .lock i (next.bind k)
  | .unlock i next, k => .unlock i (next.bind k)
  | .stop, _ => .stop
  | .fault, _ => .fault

instance : Monad (Prog κ ρ ο) where
  pure := .done
  bind := bind

theorem bind_done (p : Prog κ ρ ο α) : p.bind .done = p := by
  induction p with
  | done a => rfl
  | onOwn change next ih =>
    refine congrArg (Prog.onOwn change) ?_
    funext o own
    exact ih o own
  | onHeld i change next ih =>
    refine congrArg (Prog.onHeld i change) ?_
    funext o own r
    exact ih o own r
  | lock i next ih => exact congrArg (Prog.lock i) ih
  | unlock i next ih => exact congrArg (Prog.unlock i) ih
  | stop => rfl
  | fault => rfl

/-- An action on the thread's own state, and one on a resource as well, with their results. -/
def locally (f : ο → κ → κ × α) : Prog κ ρ ο α :=
  .onOwn (fun o own => (f o own).1) fun o own => .done (f o own).2

def under (i : ι) (f : ο → κ → ρ i → (κ × ρ i) × α) : Prog κ ρ ο α :=
  .onHeld i (fun o own r => (f o own r).1) fun o own r => .done (f o own r).2

def choose : Prog κ ρ ο ο := locally fun o own => (own, o)

def acquire (i : ι) : Prog κ ρ ο Unit := .lock i (.done ())

def release (i : ι) : Prog κ ρ ο Unit := .unlock i (.done ())

/-- The result, where the program has ended. -/
def result : Prog κ ρ ο α → Option α
  | .done a => some a
  | _ => none

theorem eq_done {p : Prog κ ρ ο α} {a : α} (ended : p.result = some a) : p = .done a := by
  cases p with
  | done b =>
    cases ended
    rfl
  | _ => cases ended

end Prog

section Turns

variable [DecidableEq ι]

namespace Thread

def put (th : Thread κ ρ) (i : ι) (r : Option (ρ i)) : Thread κ ρ :=
  { th with held := Function.update th.held i r }

variable (th : Thread κ ρ) (i : ι) (r : Option (ρ i))

@[simp] theorem put_own : (th.put i r).own = th.own := rfl

@[simp] theorem put_held_self : (th.put i r).held i = r := Function.update_self ..

theorem put_held_of_ne {i j : ι} {r : Option (ρ i)} (different : j ≠ i) :
    (th.put i r).held j = th.held j := Function.update_of_ne different ..

end Thread

/-- The resources that nobody holds, and a thread with the program that it still has to run. -/
structure Config (κ : Type) (ρ : ι → Type) (ο α : Type) where
  shared : (i : ι) → Option (ρ i)
  thread : Thread κ ρ
  prog : Prog κ ρ ο α

inductive Turn : Config κ ρ ο α → Config κ ρ ο α → Prop
  | onOwn (o : ο) {shared : (i : ι) → Option (ρ i)} {th : Thread κ ρ} {change : ο → κ → κ}
      {next : ο → κ → Prog κ ρ ο α} :
      Turn ⟨shared, th, .onOwn change next⟩
        ⟨shared, { th with own := change o th.own }, next o th.own⟩
  | onHeld (o : ο) {shared : (i : ι) → Option (ρ i)} {th : Thread κ ρ} {i : ι}
      {change : ο → κ → ρ i → κ × ρ i} {next : ο → κ → ρ i → Prog κ ρ ο α} (r : ρ i)
      (held : th.held i = some r) :
      Turn ⟨shared, th, .onHeld i change next⟩
        ⟨shared, Thread.put { th with own := (change o th.own r).1 } i (some (change o th.own r).2),
          next o th.own r⟩
  | lock {shared : (i : ι) → Option (ρ i)} {th : Thread κ ρ} {i : ι} {next : Prog κ ρ ο α} (r : ρ i)
      (free : shared i = some r) (waits : th.held i = none) :
      Turn ⟨shared, th, .lock i next⟩ ⟨Function.update shared i none, th.put i (some r), next⟩
  | unlock {shared : (i : ι) → Option (ρ i)} {th : Thread κ ρ} {i : ι} {next : Prog κ ρ ο α}
      (r : ρ i) (held : th.held i = some r) :
      Turn ⟨shared, th, .unlock i next⟩ ⟨Function.update shared i (some r), th.put i none, next⟩

/-- The turn of the thread with this choice. Where it can take none the configuration stays. -/
def Config.advance (o : ο) : Config κ ρ ο α → Config κ ρ ο α
  | ⟨shared, th, .onOwn change next⟩ =>
    ⟨shared, { th with own := change o th.own }, next o th.own⟩
  | ⟨shared, th, .onHeld i change next⟩ =>
    match th.held i with
    | none => ⟨shared, th, .onHeld i change next⟩
    | some r =>
      ⟨shared, Thread.put { th with own := (change o th.own r).1 } i (some (change o th.own r).2),
        next o th.own r⟩
  | ⟨shared, th, .lock i next⟩ =>
    match shared i, th.held i with
    | some r, none => ⟨Function.update shared i none, th.put i (some r), next⟩
    | _, _ => ⟨shared, th, .lock i next⟩
  | ⟨shared, th, .unlock i next⟩ =>
    match th.held i with
    | none => ⟨shared, th, .unlock i next⟩
    | some r => ⟨Function.update shared i (some r), th.put i none, next⟩
  | c => c

theorem Config.advance_turn (o : ο) (c : Config κ ρ ο α) :
    c.advance o = c ∨ Turn c (c.advance o) := by
  obtain ⟨shared, th, prog⟩ := c
  cases prog with
  | done a => exact Or.inl rfl
  | onOwn change next => exact Or.inr (.onOwn o)
  | onHeld i change next =>
    dsimp only [advance]
    split
    · exact Or.inl rfl
    · next r held => exact Or.inr (.onHeld o r held)
  | lock i next =>
    dsimp only [advance]
    split
    · next r free waits => exact Or.inr (.lock r free waits)
    · exact Or.inl rfl
  | unlock i next =>
    dsimp only [advance]
    split
    · exact Or.inl rfl
    · next r held => exact Or.inr (.unlock r held)
  | stop => exact Or.inl rfl
  | fault => exact Or.inl rfl

/-- Whether the resource is there. -/
def tokens (resources : (i : ι) → Option (ρ i)) (i : ι) : Nat := if (resources i).isSome then 1 else 0

theorem tokens_update {resources : (i : ι) → Option (ρ i)} {i : ι} {x : Option (ρ i)} (j : ι) :
    tokens (Function.update resources i x) j =
      if j = i then (if x.isSome then 1 else 0) else tokens resources j := by
  unfold tokens
  by_cases same : j = i
  · subst same
    rw [Function.update_self, if_pos rfl]
  · rw [Function.update_of_ne same, if_neg same]

/-- What holds of all resources that are there, after one of them has changed. -/
theorem of_update_some {P : (i : ι) → ρ i → Prop} {resources : (i : ι) → Option (ρ i)} {i : ι}
    {r : Option (ρ i)} (before : ∀ j x, resources j = some x → P j x) (new : ∀ x, r = some x → P i x) :
    ∀ j x, Function.update resources i r j = some x → P j x := by
  intro j x there
  by_cases same : j = i
  · subst same
    rw [Function.update_self] at there
    exact new x there
  · rw [Function.update_of_ne same] at there
    exact before j x there

end Turns

/-- What a thread's own state and the resources are worth, and what holds of them: of the own state
and of a resource always, and of a resource whose lock is free. What is worth something is always
allowed. -/
structure Discipline (κ : Type) (ρ : ι → Type) (M : Type) [AddCancelCommMonoid M] where
  own : κ → M
  guarded : (i : ι) → ρ i → M
  allowed : M → Prop
  allowed_add : ∀ a b, allowed (a + b) ↔ allowed a ∧ allowed b
  ownSound : κ → Prop
  intact : (i : ι) → ρ i → Prop
  settled : (i : ι) → ρ i → Prop
  intact_of_settled : ∀ i r, settled i r → intact i r

namespace Discipline

variable [DecidableEq ι] {M : Type} [AddCancelCommMonoid M] (d : Discipline κ ρ M)

structure Good (th : Thread κ ρ) : Prop where
  own : d.ownSound th.own
  held : ∀ i r, th.held i = some r → d.intact i r
  allowed : d.allowed (d.own th.own)
  allowed_held : ∀ i r, th.held i = some r → d.allowed (d.guarded i r)

variable {d} in
theorem Good.put {th : Thread κ ρ} {i : ι} {r : Option (ρ i)} (good : d.Good th)
    (fine : ∀ x, r = some x → d.intact i x) (allowed : ∀ x, r = some x → d.allowed (d.guarded i x)) :
    d.Good (th.put i r) :=
  ⟨good.own, of_update_some good.held fine, good.allowed, of_update_some good.allowed_held allowed⟩

/-- Every action of the program keeps the worth and what always holds, what is unlocked is settled,
and the postcondition holds where the program ends. -/
def Safe : Prog κ ρ ο α → (α → Thread κ ρ → Prop) → Thread κ ρ → Prop
  | .done a, post, th => d.Good th → post a th
  | .onOwn change next, post, th => d.Good th → ∀ o,
      (d.own (change o th.own) = d.own th.own ∧ d.ownSound (change o th.own)) ∧
        Safe (next o th.own) post { th with own := change o th.own }
  | .onHeld i change next, post, th => d.Good th → ∃ r, th.held i = some r ∧ ∀ o,
      (d.own (change o th.own r).1 + d.guarded i (change o th.own r).2 =
          d.own th.own + d.guarded i r ∧
        d.ownSound (change o th.own r).1 ∧ d.intact i (change o th.own r).2) ∧
        Safe (next o th.own r) post
          (Thread.put { th with own := (change o th.own r).1 } i (some (change o th.own r).2))
  | .lock i next, post, th => d.Good th → th.held i = none → ∀ r, d.settled i r →
      Safe next post (th.put i (some r))
  | .unlock i next, post, th => d.Good th → ∃ r, th.held i = some r ∧ d.settled i r ∧
      Safe next post (th.put i none)
  | .stop, _, _ => True
  | .fault, _, th => ¬d.Good th

section Rules

variable {d} {p : Prog κ ρ ο α} {post : α → Thread κ ρ → Prop} {th : Thread κ ρ}

/-- A program has to be safe for good threads only. -/
theorem Safe.of_good (safe : d.Good th → d.Safe p post th) : d.Safe p post th := by
  cases p with
  | stop => exact trivial
  | fault => exact fun good => safe good good
  | _ => exact fun good => safe good good

theorem Safe.bind {k : α → Prog κ ρ ο β} {final : β → Thread κ ρ → Prop}
    (safe : d.Safe p post th) (after : ∀ a th, d.Good th → post a th → d.Safe (k a) final th) :
    d.Safe (p >>= k) final th := by
  change d.Safe (p.bind k) final th
  induction p generalizing th with
  | done a => exact Safe.of_good fun good => after a th good (safe good)
  | onOwn change next ih =>
    intro good o
    obtain ⟨kept, rest⟩ := safe good o
    exact ⟨kept, ih o _ rest⟩
  | onHeld i change next ih =>
    intro good
    obtain ⟨r, held, each⟩ := safe good
    refine ⟨r, held, ?_⟩
    intro o
    obtain ⟨kept, rest⟩ := each o
    exact ⟨kept, ih o _ r rest⟩
  | lock i next ih => exact fun good waits r settled => ih (safe good waits r settled)
  | unlock i next ih =>
    intro good
    obtain ⟨r, held, settled, rest⟩ := safe good
    exact ⟨r, held, settled, ih rest⟩
  | stop => exact trivial
  | fault => exact safe

theorem Safe.mono {weaker : α → Thread κ ρ → Prop} (safe : d.Safe p post th)
    (le : ∀ a th, d.Good th → post a th → weaker a th) : d.Safe p weaker th := by
  rw [← p.bind_done]
  exact safe.bind fun a th good holds _ => le a th good holds

theorem Safe.pure {a : α} (holds : d.Good th → post a th) :
    d.Safe (Pure.pure a : Prog κ ρ ο α) post th := holds

theorem Safe.locally {f : ο → κ → κ × α}
    (each : d.Good th → ∀ o, d.own (f o th.own).1 = d.own th.own ∧ d.ownSound (f o th.own).1 ∧
      post (f o th.own).2 { th with own := (f o th.own).1 }) :
    d.Safe (Prog.locally f) post th := by
  intro good o
  obtain ⟨worth, sound, holds⟩ := each good o
  exact ⟨⟨worth, sound⟩, fun _ => holds⟩

theorem Safe.under {i : ι} {f : ο → κ → ρ i → (κ × ρ i) × α} {r : ρ i} (held : th.held i = some r)
    (each : d.Good th → ∀ o,
      d.own (f o th.own r).1.1 + d.guarded i (f o th.own r).1.2 = d.own th.own + d.guarded i r ∧
      d.ownSound (f o th.own r).1.1 ∧ d.intact i (f o th.own r).1.2 ∧
      post (f o th.own r).2
        (Thread.put { th with own := (f o th.own r).1.1 } i (some (f o th.own r).1.2))) :
    d.Safe (Prog.under i f) post th := by
  intro good
  refine ⟨r, held, ?_⟩
  intro o
  obtain ⟨worth, sound, intact, holds⟩ := each good o
  exact ⟨⟨worth, sound, intact⟩, fun _ => holds⟩

theorem Safe.release {i : ι} {r : ρ i} {post : Unit → Thread κ ρ → Prop}
    (held : th.held i = some r) (settled : d.settled i r) (holds : post () (th.put i none)) :
    d.Safe (Prog.release i : Prog κ ρ ο Unit) post th :=
  fun _ => ⟨r, held, settled, fun _ => holds⟩

theorem Safe.choose {post : ο → Thread κ ρ → Prop} (each : ∀ o, post o th) :
    d.Safe (Prog.choose : Prog κ ρ ο ο) post th :=
  Safe.locally fun good o => ⟨rfl, good.own, each o⟩

end Rules

section Turns

variable {d}

/-- Every turn of a safe program leaves a safe program. -/
structure Stays (d : Discipline κ ρ M) (post : α → Thread κ ρ → Prop) (c : Config κ ρ ο α) : Prop where
  safe : d.Safe c.prog post c.thread
  good : d.Good c.thread
  settled : ∀ i r, c.shared i = some r → d.settled i r
  allowed : ∀ i r, c.shared i = some r → d.allowed (d.guarded i r)

theorem Stays.turn {c c' : Config κ ρ ο α} {post : α → Thread κ ρ → Prop} (stays : Stays d post c)
    (turn : Turn c c') : Stays d post c' := by
  obtain ⟨safe, good, settled, allowed⟩ := stays
  cases turn with
  | onOwn o =>
    obtain ⟨⟨worth, sound⟩, rest⟩ := safe good o
    exact ⟨rest, ⟨sound, good.held, worth ▸ good.allowed, good.allowed_held⟩, settled, allowed⟩
  | @onHeld o shared th i change next r held =>
    obtain ⟨r', held', each⟩ := safe good
    obtain rfl : r' = r := Option.some.inj (held'.symm.trans held)
    obtain ⟨⟨worth, sound, intact⟩, rest⟩ := each o
    have both : d.allowed (d.own (change o th.own r').1 + d.guarded i (change o th.own r').2) := by
      rw [worth, d.allowed_add]
      exact ⟨good.allowed, good.allowed_held i r' held⟩
    obtain ⟨allowedOwn, allowedHeld⟩ := (d.allowed_add _ _).mp both
    have moved : d.Good { th with own := (change o th.own r').1 } :=
      ⟨sound, good.held, allowedOwn, good.allowed_held⟩
    refine ⟨rest, moved.put ?_ ?_, settled, allowed⟩
    · rintro x ⟨⟩
      exact intact
    · rintro x ⟨⟩
      exact allowedHeld
  | @lock shared th i next r free waits =>
    have fine := settled i r free
    refine ⟨safe good waits r fine, good.put ?_ ?_, of_update_some settled nofun,
      of_update_some allowed nofun⟩
    · rintro x ⟨⟩
      exact d.intact_of_settled i r fine
    · rintro x ⟨⟩
      exact allowed i r free
  | @unlock shared th i next r held =>
    obtain ⟨r', held', fine, rest⟩ := safe good
    obtain rfl : r' = r := Option.some.inj (held'.symm.trans held)
    refine ⟨rest, good.put nofun nofun, of_update_some settled ?_, of_update_some allowed ?_⟩
    · rintro x ⟨⟩
      exact fine
    · rintro x ⟨⟩
      exact good.allowed_held i r' held

/-- The runs of a thread while the others change the resources that nobody holds, and settle them. -/
inductive Runs (d : Discipline κ ρ M) : Config κ ρ ο α → Config κ ρ ο α → Prop
  | refl (c : Config κ ρ ο α) : Runs d c c
  | turn {c c' c'' : Config κ ρ ο α} (before : Runs d c c') (turn : Turn c' c'') : Runs d c c''
  | others {c c' : Config κ ρ ο α} (before : Runs d c c') (shared : (i : ι) → Option (ρ i))
      (settled : ∀ i r, shared i = some r → d.settled i r)
      (allowed : ∀ i r, shared i = some r → d.allowed (d.guarded i r)) :
      Runs d c { c' with shared := shared }

/-- A thread that takes its turns while the others do nothing. -/
theorem Runs.alone (c : Config κ ρ ο α) (o : ο) (count : Nat) :
    Runs d c ((Config.advance o)^[count] c) := by
  induction count with
  | zero => exact .refl c
  | succ count ih =>
    rw [Function.iterate_succ_apply']
    rcases Config.advance_turn o ((Config.advance o)^[count] c) with same | turn
    · rw [same]
      exact ih
    · exact ih.turn turn

theorem Stays.runs {c c' : Config κ ρ ο α} {post : α → Thread κ ρ → Prop} (stays : Stays d post c)
    (runs : Runs d c c') : Stays d post c' := by
  induction runs with
  | refl => exact stays
  | turn _ turn ih => exact ih.turn turn
  | others _ shared settled allowed ih => exact ⟨ih.safe, ih.good, settled, allowed⟩

end Turns

section Totals

variable [Fintype ι]

/-- The worth of the resources that are there. -/
def stock (resources : (i : ι) → Option (ρ i)) : M := ∑ i, (resources i).elim 0 (d.guarded i)

def worth (th : Thread κ ρ) : M := d.own th.own + d.stock th.held

omit [DecidableEq ι] [Fintype ι] in
theorem allowed_sum {σ : Type} [DecidableEq σ] {s : Finset σ} {f : σ → M} {i : σ} (member : i ∈ s)
    (all : d.allowed (∑ j ∈ s, f j)) : d.allowed (f i) := by
  rw [← Finset.add_sum_erase s f member, d.allowed_add] at all
  exact all.1

theorem allowed_stock {resources : (i : ι) → Option (ρ i)} (all : d.allowed (d.stock resources)) :
    ∀ i r, resources i = some r → d.allowed (d.guarded i r) := by
  intro i r there
  have one : d.allowed ((resources i).elim 0 (d.guarded i)) :=
    d.allowed_sum (f := fun j => (resources j).elim 0 (d.guarded j)) (Finset.mem_univ i) all
  rw [there] at one
  exact one

variable {d} in
theorem Good.of_worth {th : Thread κ ρ} (own : d.ownSound th.own)
    (held : ∀ i r, th.held i = some r → d.intact i r) (allowed : d.allowed (d.worth th)) :
    d.Good th := by
  obtain ⟨allowedOwn, stock⟩ := (d.allowed_add _ _).mp allowed
  exact ⟨own, held, allowedOwn, d.allowed_stock stock⟩

/-- What comes and what goes where one resource changes. -/
theorem stock_update (resources : (i : ι) → Option (ρ i)) (i : ι) (x : Option (ρ i)) :
    d.stock (Function.update resources i x) + (resources i).elim 0 (d.guarded i) =
      d.stock resources + x.elim 0 (d.guarded i) :=
  sum_update_at fun i (x : Option (ρ i)) => x.elim 0 (d.guarded i)

variable {d}

theorem stock_come {resources : (i : ι) → Option (ρ i)} {i : ι} (absent : resources i = none)
    (r : ρ i) : d.stock (Function.update resources i (some r)) = d.stock resources + d.guarded i r := by
  have update := d.stock_update resources i (some r)
  rw [absent] at update
  exact (add_zero _).symm.trans update

theorem stock_go {resources : (i : ι) → Option (ρ i)} {i : ι} {r : ρ i}
    (present : resources i = some r) :
    d.stock (Function.update resources i none) + d.guarded i r = d.stock resources := by
  have update := d.stock_update resources i none
  rw [present] at update
  exact update.trans (add_zero _)

/-- What the thread and the shared resources have together. -/
structure Keeps (d : Discipline κ ρ M) (c c' : Config κ ρ ο α) : Prop where
  worth : d.worth c'.thread + d.stock c'.shared = d.worth c.thread + d.stock c.shared
  tokens : ∀ i, tokens c'.thread.held i + tokens c'.shared i =
    tokens c.thread.held i + tokens c.shared i

theorem Stays.keeps {c c' : Config κ ρ ο α} {post : α → Thread κ ρ → Prop} (stays : Stays d post c)
    (turn : Turn c c') (single : ∀ i, tokens c.thread.held i + tokens c.shared i ≤ 1) :
    Keeps d c c' := by
  obtain ⟨safe, good, -, -⟩ := stays
  cases turn with
  | onOwn o =>
    obtain ⟨⟨worth, -⟩, -⟩ := safe good o
    refine ⟨?_, fun _ => rfl⟩
    unfold Discipline.worth
    rw [worth]
  | @onHeld o shared th i change next r held =>
    obtain ⟨r', held', each⟩ := safe good
    obtain rfl : r' = r := Option.some.inj (held'.symm.trans held)
    obtain ⟨⟨worth, -⟩, -⟩ := each o
    constructor
    · have exchange : d.stock (Function.update th.held i (some (change o th.own r').2)) +
          d.guarded i r' = d.stock th.held + d.guarded i (change o th.own r').2 := by
        have update := d.stock_update th.held i (some (change o th.own r').2)
        rwa [held] at update
      apply add_right_cancel (b := d.guarded i r')
      unfold Discipline.worth
      calc d.own (change o th.own r').1 + d.stock (Function.update th.held i _) + d.stock shared +
            d.guarded i r'
          = d.own (change o th.own r').1 + (d.stock (Function.update th.held i
              (some (change o th.own r').2)) + d.guarded i r') + d.stock shared := by abel
        _ = d.own (change o th.own r').1 + d.guarded i (change o th.own r').2 + d.stock th.held +
              d.stock shared := by rw [exchange]; abel
        _ = d.own th.own + d.stock th.held + d.stock shared + d.guarded i r' := by rw [worth]; abel
    · intro j
      rw [Thread.put, tokens_update]
      by_cases same : j = i
      · subst same
        simp [tokens, held]
      · rw [if_neg same]
  | @lock shared th i next r free waits =>
    constructor
    · unfold Discipline.worth
      calc d.own th.own + d.stock (Function.update th.held i (some r)) +
            d.stock (Function.update shared i none)
          = d.own th.own + d.stock th.held +
              (d.stock (Function.update shared i none) + d.guarded i r) := by
            rw [stock_come waits]
            abel
        _ = d.own th.own + d.stock th.held + d.stock shared := by rw [stock_go free]
    · intro j
      rw [Thread.put, tokens_update, tokens_update]
      by_cases same : j = i
      · subst same
        simp [tokens, waits, free]
      · rw [if_neg same, if_neg same]
  | @unlock shared th i next r held =>
    have free : shared i = none := by
      have bound : tokens th.held i + tokens shared i ≤ 1 := single i
      unfold tokens at bound
      rw [held] at bound
      cases there : shared i with
      | none => rfl
      | some x => simp [there] at bound
    constructor
    · unfold Discipline.worth
      calc d.own th.own + d.stock (Function.update th.held i none) +
            d.stock (Function.update shared i (some r))
          = d.own th.own + (d.stock (Function.update th.held i none) + d.guarded i r) +
              d.stock shared := by
            rw [stock_come free]
            abel
        _ = d.own th.own + d.stock th.held + d.stock shared := by rw [stock_go held]
    · intro j
      rw [Thread.put, tokens_update, tokens_update]
      by_cases same : j = i
      · subst same
        simp [tokens, held, free]
      · rw [if_neg same, if_neg same]

end Totals

end Discipline

end Scudo.Lib.Guarded
