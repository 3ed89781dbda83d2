import Mathlib.Data.Fintype.BigOperators
import Scudo.Lib.Transition
import Scudo.Primary.ReleaseSafe

/-!
Any number of caches over one `SizeClassAllocator64`: their operations, turn by turn, and what holds of
every run of them.
-/

namespace Scudo.Primary.Allocator64
open Scudo.Lib Scudo.Lib.Guarded

/-- What a cache is asked for, and a page release. -/
inductive Request (n : Nat) [NeZero n] where
  | allocate (I : Fin n)
  | deallocate (I : Fin n) (block : Nat)
  | drain
  | releaseToOS (I : Fin n) (other : I ≠ 0)

variable {n : Nat} [NeZero n]

section Requests

variable (c : BlockConfig n)

/-- The batch class needs no blocks of the batch class. -/
def nodesFor (I : Fin n) : BatchClass n := if I = 0 then noBatchClass else batchClass c

theorem nodesFor_safe (I : Fin n) : I ≠ 0 → (nodesFor c I).Safe c := by
  intro other
  unfold nodesFor
  rw [if_neg other]
  exact batchClass_safe

namespace Request

/-- The operation, and the block that it returns. -/
def program : Request n → Run n (Option Nat)
  | .allocate I => Allocator64.allocate c (nodesFor c I) I
  | .deallocate I block => do
    let _ ← Allocator64.deallocate c (nodesFor c I) I block
    return none
  | .drain => do
    Allocator64.drain c
    return none
  | .releaseToOS I _ => do
    Allocator64.releaseToOS c I
    return none

/-- What the user gives to the operation. -/
def given : Request n → Places n
  | .deallocate I block => Pi.single I {block}
  | _ => 0

/-- What the user is given. -/
def gives : Request n → Option Nat → Places n
  | .allocate I, block => Pi.single I (ofNode block)
  | _, _ => 0

end Request

end Requests

/-- A thread that holds no lock and has no blocks but those in its slots and these. -/
structure AtRest (hand : Places n) (th : Worker n) : Prop where
  held : th.held = fun _ => none
  released : th.own.groupsToRelease = []
  hand : th.own.hand = hand

theorem program_safe {c : BlockConfig n} (request : Request n) {th : Worker n}
    (atRest : AtRest request.given th) :
    (discipline c).Safe (request.program c) (fun block th' => AtRest (request.gives block) th') th := by
  obtain ⟨held, released, hand⟩ := atRest
  cases request with
  | allocate I =>
    refine Discipline.Safe.mono (allocate_safe (nodesFor_safe c I)) ?_
    rintro block th' - served
    refine ⟨served.held.trans held, served.groups.trans released, ?_⟩
    rw [served.hand, hand]
    exact zero_add _
  | deallocate I block =>
    have has : th.own.hand = 0 + Pi.single I {block} := by
      rw [hand, zero_add]
      rfl
    refine Discipline.Safe.bind (deallocate_safe (nodesFor_safe c I) has) ?_
    rintro _ th' - served
    exact Discipline.Safe.pure fun _ =>
      ⟨served.held.trans held, served.groups.trans released, served.hand⟩
  | drain =>
    refine Discipline.Safe.bind drain_safe ?_
    rintro _ th' - ⟨held', groups', hand'⟩
    exact Discipline.Safe.pure fun _ =>
      ⟨held'.trans held, groups'.trans released, hand'.trans hand⟩
  | releaseToOS I other =>
    refine Discipline.Safe.bind (releaseToOS_safe other released) ?_
    rintro _ th' - done_
    exact Discipline.Safe.pure fun _ =>
      ⟨done_.held.trans held, done_.released, done_.hand.trans hand⟩

/-- The caches, each with what its thread is doing, the resources that nobody holds, and the blocks of
the user. -/
structure Caches (n : Nat) [NeZero n] (τ : Type) where
  shared : (l : Lock n) → Option (Resource l)
  thread : τ → Worker n
  task : τ → Option (Request n × Run n (Option Nat))
  user : Places n

section Runs

variable (c : BlockConfig n) {τ : Type} [DecidableEq τ]

inductive Step : Caches n τ → Caches n τ → Prop
  /-- The user gives back a block that it has. -/
  | start (w : Caches n τ) (t : τ) (request : Request n) (user : Places n) (idle : w.task t = none)
      (has : w.user = user + request.given) :
      Step w { w with
        thread := Function.update w.thread t
          { w.thread t with own := { (w.thread t).own with hand := request.given } }
        task := Function.update w.task t (some (request, request.program c))
        user := user }
  | turn (w : Caches n τ) (t : τ) (request : Request n) (prog prog' : Run n (Option Nat))
      (shared : (l : Lock n) → Option (Resource l)) (th : Worker n)
      (busy : w.task t = some (request, prog))
      (turn : Turn ⟨w.shared, w.thread t, prog⟩ ⟨shared, th, prog'⟩) :
      Step w { w with
        shared := shared
        thread := Function.update w.thread t th
        task := Function.update w.task t (some (request, prog')) }
  | finish (w : Caches n τ) (t : τ) (request : Request n) (block : Option Nat)
      (busy : w.task t = some (request, .done block)) :
      Step w { w with
        thread := Function.update w.thread t
          { w.thread t with own := { (w.thread t).own with hand := 0 } }
        task := Function.update w.task t none
        user := w.user + request.gives block }

/-- Nothing is mapped or allocated, and nothing is going on. -/
structure Initial (w : Caches n τ) : Prop where
  lists : ∀ I, w.shared (.flLock I) = some ⟨[], false⟩
  pages : ∀ I, ∃ isAllocated, w.shared (.mmLock I) = some ⟨isAllocated, 0, 0, false, 0⟩
  task : ∀ t, w.task t = none
  thread : ∀ t, AtRest 0 (w.thread t)
  chunks : ∀ t I, (w.thread t).own.chunks I = []
  user : w.user = 0

def caches (τ : Type) [DecidableEq τ] : System (Caches n τ) where
  init := Initial
  step := Step c

end Runs

section Invariant

variable {c : BlockConfig n} {τ : Type} [Fintype τ] [DecidableEq τ]

/-- All blocks that the regions have room for. -/
def allBlocks (c : BlockConfig n) : Places n := fun I => unallocated c I 0

/-- What a thread is doing is safe. -/
def Busy (c : BlockConfig n) (th : Worker n) : Option (Request n × Run n (Option Nat)) → Prop
  | none => AtRest 0 th
  | some (request, prog) =>
    (discipline c).Safe prog (fun block th' => AtRest (request.gives block) th') th

structure Caches.Sound (c : BlockConfig n) (w : Caches n τ) : Prop where
  settled : ∀ l r, w.shared l = some r → (discipline c).settled l r
  good : ∀ t, (discipline c).Good (w.thread t)
  busy : ∀ t, Busy c (w.thread t) (w.task t)
  once : ∀ l, (∑ t, tokens (w.thread t).held l) + tokens w.shared l = 1
  total : (∑ t, (discipline c).worth (w.thread t)) + ((discipline c).stock w.shared + w.user) =
    allBlocks c

variable {w : Caches n τ} {t : τ}

omit [DecidableEq τ] in
/-- What is anywhere is in the regions. -/
theorem allowed_of_total {thread : τ → Worker n} {shared : (l : Lock n) → Option (Resource l)}
    {user : Places n}
    (total : (∑ t, (discipline c).worth (thread t)) + ((discipline c).stock shared + user) =
      allBlocks c) :
    (∀ t, InRegions c ((discipline c).worth (thread t))) ∧
      ∀ l r, shared l = some r → InRegions c ((discipline c).guarded l r) := by
  classical
  have all : InRegions c (allBlocks c) := fun _ _ member => member
  rw [← total, inRegions_add, inRegions_add] at all
  obtain ⟨threads, there, -⟩ := all
  exact ⟨fun t => (discipline c).allowed_sum
      (f := fun t => (discipline c).worth (thread t)) (Finset.mem_univ t) threads,
    (discipline c).allowed_stock there⟩

/-- One thread and its task change. -/
theorem Caches.Sound.change (sound : w.Sound c) {shared : (l : Lock n) → Option (Resource l)}
    {th : Worker n} {task : Option (Request n × Run n (Option Nat))} {user : Places n}
    (settled : ∀ l r, shared l = some r → (discipline c).settled l r)
    (own : th.own.Sound c) (held : ∀ l r, th.held l = some r → (discipline c).intact l r)
    (busy : Busy c th task)
    (once : ∀ l, tokens th.held l + tokens shared l =
      tokens (w.thread t).held l + tokens w.shared l)
    (worth : (discipline c).worth th + ((discipline c).stock shared + user) =
      (discipline c).worth (w.thread t) + ((discipline c).stock w.shared + w.user)) :
    Caches.Sound c ⟨shared, Function.update w.thread t th, Function.update w.task t task, user⟩ := by
  have total : (∑ u, (discipline c).worth (Function.update w.thread t th u)) +
      ((discipline c).stock shared + user) = allBlocks c := by
    rw [← sound.total]
    exact sum_update_keep (discipline c).worth worth
  refine ⟨settled, ?_, ?_, ?_, total⟩
  · intro u
    dsimp only
    by_cases same : u = t
    · subst same
      have allowed := (allowed_of_total total).1 u
      rw [Function.update_self] at allowed ⊢
      exact Discipline.Good.of_worth own held allowed
    · rw [Function.update_of_ne same]
      exact sound.good u
  · intro u
    dsimp only
    by_cases same : u = t
    · subst same
      rw [Function.update_self, Function.update_self]
      exact busy
    · rw [Function.update_of_ne same, Function.update_of_ne same]
      exact sound.busy u
  · intro l
    rw [← sound.once l]
    exact sum_update_keep (fun th : Worker n => tokens th.held l) (once l)

omit [DecidableEq τ] in
theorem Caches.Sound.le_one (sound : w.Sound c) (t : τ) (l : Lock n) :
    tokens (w.thread t).held l + tokens w.shared l ≤ 1 := by
  have part : tokens (w.thread t).held l ≤ ∑ u, tokens (w.thread u).held l :=
    Finset.single_le_sum (f := fun u => tokens (w.thread u).held l) (fun _ _ => Nat.zero_le _)
      (Finset.mem_univ t)
  have whole := sound.once l
  omega

/-- Blocks come to the hands of a thread, or go from them. -/
theorem worth_hand {th : Worker n} {hand before after : Places n}
    (moves : hand + after = th.own.hand + before) :
    (discipline c).worth { th with own := { th.own with hand := hand } } + after =
      (discipline c).worth th + before := by
  change Locals.places { th.own with hand := hand } + (discipline c).stock th.held + after =
    th.own.places + (discipline c).stock th.held + before
  unfold Locals.places
  dsimp only
  calc _ = (fun J => (th.own.chunks J : Multiset Nat)) +
            Pi.single th.own.releaseClass (recorded th.own.groupsToRelease) +
            Pi.single 0 (nodes th.own.groupsToRelease) + (discipline c).stock th.held +
            (hand + after) := by abel
    _ = _ := by
      rw [moves]
      abel

theorem Step.sound {w' : Caches n τ} (sound : w.Sound c) (step : Step c w w') : w'.Sound c := by
  cases step with
  | start t request user idle has =>
    have busy := sound.busy t
    rw [idle] at busy
    refine sound.change sound.settled ((sound.good t).own.of_hand _) (sound.good t).held ?_ ?_ ?_
    · exact program_safe request ⟨busy.held, busy.released, rfl⟩
    · exact fun _ => rfl
    · rw [add_left_comm, add_left_comm ((discipline c).worth (w.thread t))]
      refine congrArg ((discipline c).stock w.shared + ·) (worth_hand ?_)
      rw [busy.hand, has, zero_add, add_comm]
  | turn t request prog prog' shared th busy turn =>
    have safe := sound.busy t
    rw [busy] at safe
    have stays : Discipline.Stays (discipline c) (fun block th' => AtRest (request.gives block) th')
        ⟨w.shared, w.thread t, prog⟩ :=
      ⟨safe, sound.good t, sound.settled, (allowed_of_total sound.total).2⟩
    have after := stays.turn turn
    have keeps := stays.keeps turn (sound.le_one t)
    have goesOn : Busy c th (some (request, prog')) := after.safe
    refine sound.change after.settled after.good.own after.good.held goesOn keeps.tokens ?_
    have worth := keeps.worth
    dsimp only at worth
    rw [← add_assoc, worth, add_assoc]
  | finish t request block busy =>
    have safe := sound.busy t
    rw [busy] at safe
    have atRest := safe (sound.good t)
    refine sound.change sound.settled ((sound.good t).own.of_hand _) (sound.good t).held ?_ ?_ ?_
    · exact ⟨atRest.held, atRest.released, rfl⟩
    · exact fun _ => rfl
    · rw [add_left_comm, add_left_comm ((discipline c).worth (w.thread t))]
      refine congrArg ((discipline c).stock w.shared + ·) (worth_hand ?_)
      rw [atRest.hand, zero_add, add_comm]

/-- The locks of the free lists, and those of the mapped pages. -/
def Lock.toSum : Lock n ≃ Fin n ⊕ Fin n where
  toFun
    | .flLock I => .inl I
    | .mmLock I => .inr I
  invFun
    | .inl I => .flLock I
    | .inr I => .mmLock I
  left_inv := by rintro (I | I) <;> rfl
  right_inv := by rintro (I | I) <;> rfl

omit [NeZero n] in
theorem sum_locks {M : Type} [AddCommMonoid M] (f : Lock n → M) :
    ∑ l, f l = (∑ I, f (.flLock I)) + ∑ I, f (.mmLock I) := by
  rw [← Lock.toSum.symm.sum_comp, Fintype.sum_sum_type]
  rfl

omit [NeZero n] in
theorem sum_single (f : Places n) : ∑ I, (Pi.single I (f I) : Places n) = f :=
  Finset.univ_sum_single f

omit [Fintype τ] [DecidableEq τ] in
theorem initial_settled (init : Initial w) (l : Lock n) (r : Resource l) (there : w.shared l = some r) :
    (discipline c).settled l r := by
  cases l with
  | flLock I =>
    obtain rfl : (⟨[], false⟩ : FreeListInfo) = r := Option.some.inj ((init.lists I).symm.trans there)
    exact ⟨fun _ => ⟨Nat.zero_le _, nofun⟩, fun _ => ListSettled.nil⟩
  | mmLock I =>
    obtain ⟨isAllocated, pages⟩ := init.pages I
    obtain rfl := Option.some.inj (pages.symm.trans there)
    refine ⟨⟨Nat.dvd_zero (c.getSizeByClassId I), ?_, Nat.zero_le _, ?_⟩, rfl⟩
    · simp
    · have positive := isPowerOfTwo_pos c.increment
      dsimp only
      omega

omit [DecidableEq τ] in
theorem initial_total (init : Initial w) :
    (∑ t, (discipline c).worth (w.thread t)) + ((discipline c).stock w.shared + w.user) =
      allBlocks c := by
  have own : ∀ t, (discipline c).worth (w.thread t) = 0 := by
    intro t
    have rest := init.thread t
    have slots : (fun J => ((w.thread t).own.chunks J : Multiset Nat)) = 0 := by
      funext J
      rw [init.chunks t J]
      rfl
    have stock : (discipline c).stock (w.thread t).held = 0 := by
      unfold Discipline.stock
      rw [rest.held]
      exact Finset.sum_const_zero
    change Locals.places (w.thread t).own + (discipline c).stock (w.thread t).held = 0
    unfold Locals.places
    rw [stock, slots, rest.hand, rest.released, recorded_nil, nodes_nil, Pi.single_zero,
      Pi.single_zero]
    rfl
  have lists : ∀ I, (w.shared (.flLock I)).elim 0 ((discipline c).guarded (.flLock I)) = 0 := by
    intro I
    rw [init.lists I]
    change listPlaces I [] = 0
    unfold listPlaces
    split_ifs
    · rw [recorded_nil, lone_nil, add_zero, Pi.single_zero]
    · rw [recorded_nil, nodes_nil, Pi.single_zero, Pi.single_zero, add_zero]
  have pages : ∀ I, (w.shared (.mmLock I)).elim 0 ((discipline c).guarded (.mmLock I)) =
      Pi.single I (allBlocks c I) := by
    intro I
    obtain ⟨isAllocated, there⟩ := init.pages I
    rw [there]
    change (Pi.single I (unallocated c I (0 / c.getSizeByClassId I + 0)) : Places n) = _
    rw [Nat.zero_div]
    rfl
  rw [Finset.sum_eq_zero fun t _ => own t, init.user, zero_add, add_zero]
  unfold Discipline.stock
  rw [sum_locks, Finset.sum_eq_zero fun I _ => lists I, zero_add,
    Finset.sum_congr rfl fun I _ => pages I, sum_single]

omit [DecidableEq τ] in
theorem initial_sound (init : Initial w) : w.Sound c where
  total := initial_total init
  settled := initial_settled init
  good := by
    intro t
    have rest := init.thread t
    refine Discipline.Good.of_worth ⟨?_, ?_, ?_⟩ ?_ ((allowed_of_total (initial_total init)).1 t)
    · intro I
      rw [init.chunks t I]
      exact Nat.zero_le _
    · rw [rest.released]
      exact ListSettled.nil
    · exact fun some_ => absurd rest.released some_
    · intro l r there
      rw [rest.held] at there
      exact absurd there nofun
  busy := by
    intro t
    rw [init.task t]
    exact init.thread t
  once := by
    intro l
    have none_ : ∀ t, tokens (w.thread t).held l = 0 := by
      intro t
      unfold tokens
      rw [(init.thread t).held]
      rfl
    have there : tokens w.shared l = 1 := by
      unfold tokens
      cases l with
      | flLock I =>
        rw [init.lists I]
        rfl
      | mmLock I =>
        obtain ⟨isAllocated, pages⟩ := init.pages I
        rw [pages]
        rfl
    rw [Finset.sum_eq_zero fun t _ => none_ t, there]

theorem reachable_sound (reached : (caches c τ).Reachable w) : w.Sound c :=
  reached.invariant (fun _ => initial_sound) fun _ _ => Step.sound

end Invariant

section Schedules

variable (c : BlockConfig n) {τ : Type} [DecidableEq τ]

/-- What may be done next: a request, some turns of a thread with its request, and the end of the
request. -/
inductive Move (n : Nat) [NeZero n] (τ : Type) where
  | request (t : τ) (request : Request n)
  | turns (t : τ) (o : Outside) (count : Nat)
  | finish (t : τ)

namespace Caches

def turn (t : τ) (o : Outside) (w : Caches n τ) : Caches n τ :=
  match w.task t with
  | none => w
  | some (request, prog) =>
    let later := Config.advance o ⟨w.shared, w.thread t, prog⟩
    { w with
      shared := later.shared
      thread := Function.update w.thread t later.thread
      task := Function.update w.task t (some (request, later.prog)) }

/-- A move that cannot be made changes nothing. -/
def move (w : Caches n τ) : Move n τ → Caches n τ
  | .request t request =>
    if w.task t = none ∧ ∀ I, request.given I ≤ w.user I then
      { w with
        thread := Function.update w.thread t
          { w.thread t with own := { (w.thread t).own with hand := request.given } }
        task := Function.update w.task t (some (request, request.program c))
        user := w.user - request.given }
    else w
  | .turns t o count => (turn t o)^[count] w
  | .finish t =>
    match w.task t with
    | some (request, .done block) =>
      { w with
        thread := Function.update w.thread t
          { w.thread t with own := { (w.thread t).own with hand := 0 } }
        task := Function.update w.task t none
        user := w.user + request.gives block }
    | _ => w

/-- A run that is computed. -/
def play (moves : List (Move n τ)) (w : Caches n τ) : Caches n τ := moves.foldl (move c) w

variable {c} {w : Caches n τ}

theorem reachable_turn (t : τ) (o : Outside) (reached : (caches c τ).Reachable w) :
    (caches c τ).Reachable (w.turn t o) := by
  unfold turn
  split
  · exact reached
  · next request prog busy =>
    rcases Config.advance_turn o ⟨w.shared, w.thread t, prog⟩ with same | turn
    · have unchanged : w = { w with
          shared := w.shared
          thread := Function.update w.thread t (w.thread t)
          task := Function.update w.task t (some (request, prog)) } := by
        rw [Function.update_eq_self, ← busy, Function.update_eq_self]
      rw [same, ← unchanged]
      exact reached
    · exact reached.step (.turn w t request prog _ _ _ busy turn)

theorem reachable_move (m : Move n τ) (reached : (caches c τ).Reachable w) :
    (caches c τ).Reachable (w.move c m) := by
  cases m with
  | request t request =>
    dsimp only [move]
    split
    · next ready =>
      have has : w.user = w.user - request.given + request.given := by
        funext I
        exact (tsub_add_cancel_of_le (ready.2 I)).symm
      exact reached.step (.start w t request _ ready.1 has)
    · exact reached
  | turns t o count =>
    change (caches c τ).Reachable ((turn t o)^[count] w)
    induction count with
    | zero => exact reached
    | succ count ih =>
      rw [Function.iterate_succ_apply']
      exact reachable_turn t o ih
  | finish t =>
    dsimp only [move]
    split
    · next request block busy => exact reached.step (.finish w t request block busy)
    · exact reached

theorem reachable_play (moves : List (Move n τ)) (reached : (caches c τ).Reachable w) :
    (caches c τ).Reachable (w.play c moves) := by
  unfold play
  induction moves generalizing w with
  | nil => exact reached
  | cons m rest ih => exact ih (reachable_move m reached)

end Caches

end Schedules

end Scudo.Primary.Allocator64
