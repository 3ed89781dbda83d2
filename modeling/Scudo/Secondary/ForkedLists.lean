import Scudo.Lib.Transition
import Scudo.Secondary.InUse
import Scudo.SharedArena.Types

/-!
The lists of blocks in use of processes that fork. A list is private, and so are the headers in
private mappings, but the headers of arena blocks stand in memory that all processes share: a
process that links such a block anew moves the links under the lists of the others.
-/

namespace Scudo.Secondary
open InUseBlocks

/-- One process: its list, the links in its private mappings, and the blocks that it can free. -/
structure Holder where
  list : InUseBlocks
  own : Links
  live : List Nat

/-- All processes, by number, and the links in the arenas. `owner` tells which process an arena
block was handed to, while it was not stored again. -/
structure Holders where
  procs : Nat → Option Holder
  shared : Links
  owner : Nat → Option Nat

/-- Links of two memories: those of arena addresses and those of all others. -/
def Links.join (arena : Nat → Bool) (inside outside : Links) : Links where
  next := fun x => if arena x then inside.next x else outside.next x
  prev := fun x => if arena x then inside.prev x else outside.prev x

namespace Holders

variable (arena : Nat → Bool)

/-- The links that a process reads. -/
def view (s : Holders) (proc : Holder) : Links := Links.join arena s.shared proc.own

/-- `pid` has changed the links that it reads to `l`. -/
def write (s : Holders) (pid : Nat) (proc : Holder) (l : Links) (list : InUseBlocks)
    (live : List Nat) (owner : Nat → Option Nat) : Holders where
  procs := Function.update s.procs pid (some ⟨list, Links.join arena proc.own l, live⟩)
  shared := Links.join arena l s.shared
  owner := owner

inductive Op where
  | allocate (pid x : Nat)
  | deallocate (pid x : Nat) (stored : Bool)
  | fork (parent child : Nat)
  | scribble

/-- An arena block handed out is nobody's, a private one is not in use by its process. Only the
process that an arena block was handed to stores it; inherited blocks are skipped. Where no block
in use has its header, anything may be written. -/
inductive Step : Op → Holders → Holders → Prop
  | allocate {s : Holders} (pid x : Nat) (proc : Holder) (running : s.procs pid = some proc)
      (nonzero : x ≠ 0)
      (unused : if arena x = true then s.owner x = none else x ∉ proc.live) :
      Step (.allocate pid x) s
        (s.write arena pid proc (pushBack (s.view arena proc) proc.list x).1
          (pushBack (s.view arena proc) proc.list x).2 (proc.live ++ [x])
          (if arena x = true then Function.update s.owner x (some pid) else s.owner))
  | deallocate {s : Holders} (pid x : Nat) (stored : Bool) (proc : Holder) (l : Links)
      (list : InUseBlocks) (running : s.procs pid = some proc) (held : x ∈ proc.live)
      (run : remove (s.view arena proc) proc.list x = some (l, list))
      (own : stored = true → arena x = true ∧ s.owner x = some pid) :
      Step (.deallocate pid x stored) s
        (s.write arena pid proc l list (proc.live.erase x)
          (if stored = true then Function.update s.owner x none else s.owner))
  | fork {s : Holders} (parent child : Nat) (proc : Holder) (running : s.procs parent = some proc)
      (unused : s.procs child = none) :
      Step (.fork parent child) s
        { s with procs := Function.update s.procs child (some proc) }
  | scribble {s : Holders} (shared : Links) (own : Nat → Links)
      (inside : ∀ x, arena x = true → s.owner x ≠ none →
        shared.next x = s.shared.next x ∧ shared.prev x = s.shared.prev x)
      (outside : ∀ pid proc, s.procs pid = some proc → ∀ x ∈ proc.live,
        (own pid).next x = proc.own.next x ∧ (own pid).prev x = proc.own.prev x) :
      Step .scribble s
        { s with
          procs := fun pid => (s.procs pid).map fun proc => { proc with own := own pid }
          shared := shared }

/-- Outside of `pid` no process has this block in its list, if it is one of an arena. -/
def Exclusive (s : Holders) (pid y : Nat) : Prop :=
  arena y = true → ∀ q other, q ≠ pid → s.procs q = some other → y ∉ other.live

/-- The step writes to no header that another process has in its list, and gives no such header
back to an arena. -/
def Careful (s : Holders) : Op → Prop
  | .allocate pid _ => ∀ proc, s.procs pid = some proc → proc.list.empty = false →
      s.Exclusive arena pid proc.list.last
  | .deallocate pid x stored =>
      (∀ proc, s.procs pid = some proc →
        ((s.view arena proc).prev x ≠ 0 → s.Exclusive arena pid ((s.view arena proc).prev x)) ∧
        ((s.view arena proc).next x ≠ 0 → s.Exclusive arena pid ((s.view arena proc).next x))) ∧
      (stored = true → s.Exclusive arena pid x)
  | _ => True

/-- One process with an empty list, whatever the memory holds. -/
inductive Initial : Holders → Prop
  | start (pid : Nat) (own shared : Links) :
      Initial ⟨Function.update (fun _ => none) pid (some ⟨⟨0, 0, 0⟩, own, []⟩), shared,
        fun _ => none⟩

/-- All runs. -/
def system : Lib.System Holders := ⟨Initial, fun s s' => ∃ op, Step arena op s s'⟩

/-- The runs whose steps meet the condition. -/
def carefulSystem : Lib.System Holders :=
  ⟨Initial, fun s s' => ∃ op, s.Careful arena op ∧ Step arena op s s'⟩

/-- Every list is linked as it should be, and no header in it stands in pages given back. -/
structure Intact (s : Holders) : Prop where
  holds : ∀ pid proc, s.procs pid = some proc → Holds (s.view arena proc) proc.list proc.live
  owned : ∀ pid proc, s.procs pid = some proc → ∀ x ∈ proc.live, arena x = true → s.owner x ≠ none

section Write

variable {arena : Nat → Bool} {s s' : Holders} {pid q x : Nat} {proc other : Holder} {l : Links}
  {list : InUseBlocks} {live : List Nat} {owner : Nat → Option Nat}

theorem view_next {y : Nat} (inside : arena y = true) :
    (s.view arena proc).next y = s.shared.next y := if_pos inside

theorem view_prev {y : Nat} (inside : arena y = true) :
    (s.view arena proc).prev y = s.shared.prev y := if_pos inside

/-- A process reads back what it wrote. -/
theorem join_join (l shared own : Links) :
    Links.join arena (Links.join arena l shared) (Links.join arena own l) = l := by
  cases l with
  | mk next prev =>
    unfold Links.join
    congr 1
    · funext y
      by_cases inside : arena y = true <;> simp [inside]
    · funext y
      by_cases inside : arena y = true <;> simp [inside]

/-- What the others read changes where the writer changed the links of arena blocks. -/
theorem join_write_next (l shared own : Links) (y : Nat) :
    (Links.join arena (Links.join arena l shared) own).next y =
      if arena y = true then l.next y else own.next y := by
  unfold Links.join
  by_cases inside : arena y = true <;> simp [inside]

theorem join_write_prev (l shared own : Links) (y : Nat) :
    (Links.join arena (Links.join arena l shared) own).prev y =
      if arena y = true then l.prev y else own.prev y := by
  unfold Links.join
  by_cases inside : arena y = true <;> simp [inside]

/-- A write is harmless where it leaves the headers that others have in their lists alone. -/
theorem Intact.harmless (intact : s.Intact arena) (holds : Holds l list live)
    (owned : ∀ y ∈ live, arena y = true → owner y ≠ none)
    (others : ∀ q other, q ≠ pid → s.procs q = some other → ∀ y ∈ other.live, arena y = true →
      l.next y = s.shared.next y ∧ l.prev y = s.shared.prev y ∧ owner y ≠ none) :
    (s.write arena pid proc l list live owner).Intact arena := by
  constructor
  · intro q other running
    unfold write at running ⊢
    dsimp only at running
    by_cases same : q = pid
    · subst same
      rw [Function.update_self] at running
      cases running
      change Holds (Links.join arena (Links.join arena l s.shared)
        (Links.join arena proc.own l)) list live
      rw [join_join]
      exact holds
    · rw [Function.update_of_ne same] at running
      have before := intact.holds q other running
      have kept := others q other same running
      apply before.congr
      · intro y member
        change (Links.join arena (Links.join arena l s.shared) other.own).next y =
          (Links.join arena s.shared other.own).next y
        rw [join_write_next]
        unfold Links.join
        dsimp only
        split_ifs with inside
        · exact (kept y member inside).1
        · rfl
      · intro y member
        change (Links.join arena (Links.join arena l s.shared) other.own).prev y =
          (Links.join arena s.shared other.own).prev y
        rw [join_write_prev]
        unfold Links.join
        dsimp only
        split_ifs with inside
        · exact (kept y member inside).2.1
        · rfl
  · intro q other running y member inside
    unfold write at running ⊢
    dsimp only at running ⊢
    by_cases same : q = pid
    · subst same
      rw [Function.update_self] at running
      cases running
      exact owned y member inside
    · rw [Function.update_of_ne same] at running
      exact (others q other same running y member inside).2.2

/-- After a write that left the lists intact, an arena block in the list of another process has the
same links as before. -/
theorem Intact.of_write (intact : s.Intact arena)
    (after : (s.write arena pid proc l list live owner).Intact arena)
    (different : q ≠ pid) (running : s.procs q = some other) {y : Nat} (member : y ∈ other.live)
    (inside : arena y = true) :
    l.next y = s.shared.next y ∧ l.prev y = s.shared.prev y ∧ owner y ≠ none := by
  have still : (s.write arena pid proc l list live owner).procs q = some other := by
    unfold write
    dsimp only
    rw [Function.update_of_ne different]
    exact running
  obtain ⟨left, right, split⟩ := List.append_of_mem member
  have before := intact.holds q other running
  have now := after.holds q other still
  rw [split] at before now
  obtain ⟨prevBefore, nextBefore⟩ := before.at_node
  obtain ⟨prevNow, nextNow⟩ := now.at_node
  unfold view Links.join at prevBefore nextBefore
  unfold view write at prevNow nextNow
  dsimp only at prevBefore nextBefore prevNow nextNow
  rw [if_pos inside] at prevBefore nextBefore
  rw [join_write_prev, if_pos inside] at prevNow
  rw [join_write_next, if_pos inside] at nextNow
  exact ⟨nextNow.trans nextBefore.symm, prevNow.trans prevBefore.symm,
    after.owned q other still y member inside⟩

/-- Appending keeps the lists intact if and only if the last block so far is in no other list. -/
theorem Intact.allocate_iff (intact : s.Intact arena) (running : s.procs pid = some proc)
    (nonzero : x ≠ 0) (unused : if arena x = true then s.owner x = none else x ∉ proc.live) :
    (s.write arena pid proc (pushBack (s.view arena proc) proc.list x).1
        (pushBack (s.view arena proc) proc.list x).2 (proc.live ++ [x])
        (if arena x = true then Function.update s.owner x (some pid) else s.owner)).Intact arena ↔
      s.Careful arena (.allocate pid x) := by
  have holds := intact.holds pid proc running
  have fresh : ∀ q other, s.procs q = some other → arena x = true → x ∉ other.live := by
    intro q other runs inside member
    rw [if_pos inside] at unused
    exact intact.owned q other runs x member inside unused
  have new : x ∉ proc.live := by
    by_cases inside : arena x = true
    · exact fresh pid proc running inside
    · rwa [if_neg inside] at unused
  have owned : ∀ q other, s.procs q = some other → ∀ y ∈ other.live, arena y = true →
      (if arena x = true then Function.update s.owner x (some pid) else s.owner) y ≠ none := by
    intro q other runs y member inside
    split_ifs
    · rw [Function.update_apply]
      split_ifs
      · simp
      · exact intact.owned q other runs y member inside
    · exact intact.owned q other runs y member inside
  constructor
  · intro after proc' running' filled inside q other different runs member
    rw [running] at running'
    cases running'
    obtain ⟨next, _, _⟩ := intact.of_write after different runs member inside
    have ends := holds.next_last filled
    rw [view_next inside] at ends
    rw [pushBack_next, if_pos ⟨filled, rfl⟩, ends] at next
    exact nonzero next
  · intro careful
    apply intact.harmless (pushBack_holds holds new nonzero)
    · intro y member inside
      rcases List.mem_append.mp member with old | last
      · exact owned pid proc running y old inside
      · rw [List.mem_singleton.mp last] at inside ⊢
        rw [if_pos inside, Function.update_self]
        simp
    · intro q other different runs y member inside
      have notNew : y ≠ x := by
        rintro rfl
        exact fresh q other runs inside member
      have notLast : ¬(proc.list.empty = false ∧ y = proc.list.last) := by
        rintro ⟨filled, rfl⟩
        exact careful proc running filled inside q other different runs member
      rw [pushBack_next, pushBack_prev, if_neg notLast, if_neg notNew, if_neg notNew]
      exact ⟨view_next inside, view_prev inside, owned q other runs y member inside⟩

/-- Taking a block out keeps the lists intact if and only if neither neighbour, nor the block where
it is given back, is in another list. -/
theorem Intact.deallocate_iff {stored : Bool} (intact : s.Intact arena)
    (running : s.procs pid = some proc) (held : x ∈ proc.live)
    (run : remove (s.view arena proc) proc.list x = some (l, list))
    (own : stored = true → arena x = true ∧ s.owner x = some pid) :
    (s.write arena pid proc l list (proc.live.erase x)
        (if stored = true then Function.update s.owner x none else s.owner)).Intact arena ↔
      s.Careful arena (.deallocate pid x stored) := by
  have holds := intact.holds pid proc running
  obtain ⟨left, right, split⟩ := List.append_of_mem held
  rw [split] at holds
  obtain ⟨prev, next⟩ := holds.at_node
  obtain ⟨prevNe, nextNe⟩ := holds.neighbours_ne
  rw [remove_eq holds] at run
  simp only [Option.some.injEq, Prod.mk.injEq] at run
  obtain ⟨rfl, rfl⟩ := run
  constructor
  · intro after
    refine ⟨?_, ?_⟩
    · intro proc' running'
      rw [running] at running'
      cases running'
      rw [prev, next]
      constructor
      · intro there inside q other different runs member
        obtain ⟨changed, _, _⟩ := intact.of_write after different runs member inside
        rw [unlink_next, if_pos ⟨there, rfl⟩, ← view_next inside, holds.next_before there] at changed
        exact nextNe changed
      · intro there inside q other different runs member
        obtain ⟨_, changed, _⟩ := intact.of_write after different runs member inside
        rw [unlink_prev, if_pos ⟨there, rfl⟩, ← view_prev inside, holds.prev_behind there] at changed
        exact prevNe changed
    · intro stores inside q other different runs member
      obtain ⟨_, _, owned⟩ := intact.of_write after different runs member inside
      rw [if_pos stores, Function.update_self] at owned
      exact owned rfl
  · rintro ⟨neighbours, back⟩
    obtain ⟨before, behind⟩ := neighbours proc running
    rw [prev] at before
    rw [next] at behind
    have owned : ∀ q other, s.procs q = some other → ∀ y ∈ other.live, arena y = true →
        (stored = true → y ≠ x) →
        (if stored = true then Function.update s.owner x none else s.owner) y ≠ none := by
      intro q other runs y member inside kept
      split_ifs with stores
      · rw [Function.update_of_ne (kept stores)]
        exact intact.owned q other runs y member inside
      · exact intact.owned q other runs y member inside
    rw [split, holds.erase_eq]
    apply intact.harmless (unlink_holds holds)
    · intro y member inside
      have old : y ∈ proc.live := by
        rw [split]
        exact ((List.Sublist.refl left).append (List.sublist_cons_self x right)).subset member
      apply owned pid proc running y old inside
      rintro _ rfl
      have nodup := holds.nodup
      rcases List.mem_append.mp member with inLeft | inRight
      · exact (List.nodup_append.mp nodup).2.2 y inLeft y List.mem_cons_self rfl
      · exact (List.nodup_cons.mp (List.nodup_append.mp nodup).2.1).1 inRight
    · intro q other different runs y member inside
      have notPrev : ¬(left.getLastD 0 ≠ 0 ∧ y = left.getLastD 0) := by
        rintro ⟨there, rfl⟩
        exact before there inside q other different runs member
      have notNext : ¬(right.headD 0 ≠ 0 ∧ y = right.headD 0) := by
        rintro ⟨there, rfl⟩
        exact behind there inside q other different runs member
      rw [unlink_next, unlink_prev, if_neg notPrev, if_neg notNext]
      refine ⟨view_next inside, view_prev inside, owned q other runs y member inside ?_⟩
      rintro stores rfl
      exact back stores inside q other different runs member

theorem Intact.fork (intact : s.Intact arena) (running : s.procs q = some proc) (child : Nat) :
    Intact arena { s with procs := Function.update s.procs child (some proc) } := by
  constructor
  · intro r other runs
    dsimp only at runs
    by_cases same : r = child
    · subst same
      rw [Function.update_self] at runs
      cases runs
      exact intact.holds q proc running
    · rw [Function.update_of_ne same] at runs
      exact intact.holds r other runs
  · intro r other runs
    dsimp only at runs
    by_cases same : r = child
    · subst same
      rw [Function.update_self] at runs
      cases runs
      exact intact.owned q proc running
    · rw [Function.update_of_ne same] at runs
      exact intact.owned r other runs

/-- Headers of blocks in use are nobody else's memory. -/
theorem Intact.scribble (intact : s.Intact arena) {shared : Links} {own : Nat → Links}
    (inside : ∀ x, arena x = true → s.owner x ≠ none →
      shared.next x = s.shared.next x ∧ shared.prev x = s.shared.prev x)
    (outside : ∀ pid proc, s.procs pid = some proc → ∀ x ∈ proc.live,
      (own pid).next x = proc.own.next x ∧ (own pid).prev x = proc.own.prev x) :
    Intact arena { s with
      procs := fun pid => (s.procs pid).map fun proc => { proc with own := own pid }
      shared := shared } := by
  constructor
  · intro q other runs
    obtain ⟨proc, running, rfl⟩ := Option.map_eq_some_iff.mp runs
    apply (intact.holds q proc running).congr
    · intro y member
      unfold view Links.join
      dsimp only
      split_ifs with shares
      · exact (inside y shares (intact.owned q proc running y member shares)).1
      · exact (outside q proc running y member).1
    · intro y member
      unfold view Links.join
      dsimp only
      split_ifs with shares
      · exact (inside y shares (intact.owned q proc running y member shares)).2
      · exact (outside q proc running y member).2
  · intro q other runs
    obtain ⟨proc, running, rfl⟩ := Option.map_eq_some_iff.mp runs
    exact intact.owned q proc running

/-- From intact lists a step leads to intact lists if and only if it meets its condition. -/
theorem Intact.step_iff {op : Op} (intact : s.Intact arena) (step : Step arena op s s') :
    s'.Intact arena ↔ s.Careful arena op := by
  cases step with
  | allocate pid x proc running nonzero unused =>
    exact intact.allocate_iff running nonzero unused
  | deallocate pid x stored proc l list running held run own =>
    exact intact.deallocate_iff running held run own
  | fork parent child proc running unused => exact iff_of_true (intact.fork running child) trivial
  | scribble shared own inside outside => exact iff_of_true (intact.scribble inside outside) trivial

theorem careful_intact (reached : (carefulSystem arena).Reachable s) : s.Intact arena := by
  apply reached.invariant
  · intro t start
    cases start with
    | start pid own shared =>
      constructor
      · intro q other runs
        by_cases same : q = pid
        · subst same
          dsimp only at runs
          rw [Function.update_self] at runs
          cases runs
          exact holds_nil _
        · dsimp only at runs
          rw [Function.update_of_ne same] at runs
          cases runs
      · intro q other runs
        by_cases same : q = pid
        · subst same
          dsimp only at runs
          rw [Function.update_self] at runs
          cases runs
          intro x member
          exact absurd member List.not_mem_nil
        · dsimp only at runs
          rw [Function.update_of_ne same] at runs
          cases runs
  · rintro t t' intact ⟨op, careful, step⟩
    exact (intact.step_iff step).mpr careful

end Write

end Holders

/-- In every run whose steps meet their condition every process reads, from the head of its list,
a linked list of exactly the blocks that it can free, and no `CHECK` of `remove` fails on them. A
step that does not meet its condition breaks a list or leaves one in pages given back. -/
theorem in_use_lists {arena : Nat → Bool} {s : Holders}
    (reached : (Holders.carefulSystem arena).Reachable s) :
    (∀ pid proc, s.procs pid = some proc →
      Holds (s.view arena proc) proc.list proc.live ∧
      chain (s.view arena proc) (proc.live.length + 1) proc.list.first = proc.live ∧
      ∀ x ∈ proc.live, remove (s.view arena proc) proc.list x ≠ none) ∧
    ∀ op s', Holders.Step arena op s s' → (s'.Intact arena ↔ s.Careful arena op) := by
  have intact := Holders.careful_intact reached
  refine ⟨?_, fun op s' step => intact.step_iff step⟩
  intro pid proc running
  have holds := intact.holds pid proc running
  refine ⟨holds, ?_, ?_⟩
  · rw [holds.first]
    exact Chained.chain_eq holds.linked.chained holds.proper (Nat.lt_succ_self _)
  · intro x member
    obtain ⟨left, right, split⟩ := List.append_of_mem member
    rw [split] at holds
    rw [remove_eq holds]
    simp

/-- The addresses from the window of the arenas on. -/
def inWindow (x : Nat) : Bool := decide (SharedArena.kSharedArenaBaseAddr ≤ x)

/-- Headers of three blocks of an arena. -/
def blockA : Nat := SharedArena.kSharedArenaBaseAddr + 4096
def blockB : Nat := blockA + 2 ^ 20
def blockC : Nat := blockB + 2 ^ 20

def zeroLinks : Links := ⟨fun _ => 0, fun _ => 0⟩

/-- The child frees the block that it inherited before the parent allocates the next one. -/
theorem in_use_lists_freed :
    ∃ (s : Holders) (proc : Holder), s.procs 1 = some proc ∧ proc.live = [blockA, blockB] ∧
      chain (s.view inWindow proc) 3 proc.list.first = [blockA, blockB] := by
  have start : (Holders.carefulSystem inWindow).Reachable _ :=
    Lib.System.Reachable.init (Holders.Initial.start 1 zeroLinks zeroLinks)
  have first := start.step ⟨.allocate 1 blockA, (by
    intro proc running filled
    obtain rfl := Option.some.inj running
    cases filled), Holders.Step.allocate 1 blockA _ rfl (by decide) rfl⟩
  have forked := first.step ⟨.fork 1 2, trivial, Holders.Step.fork 1 2 _ rfl rfl⟩
  have freed := forked.step ⟨.deallocate 2 blockA false, (by
    refine ⟨?_, fun stores => nomatch stores⟩
    intro proc running
    obtain rfl := Option.some.inj running
    exact ⟨fun there => absurd rfl there, fun there => absurd rfl there⟩),
    Holders.Step.deallocate 2 blockA false _ _ _ rfl (by decide) rfl (fun stores => nomatch stores)⟩
  have appended := freed.step ⟨.allocate 1 blockB, (by
    intro proc running filled inside q other different runs member
    obtain rfl := Option.some.inj running
    by_cases child : q = 2
    · subst child
      obtain rfl := Option.some.inj runs
      cases member
    · simp [Holders.write, child, different] at runs), Holders.Step.allocate 1 blockB _ rfl (by decide) rfl⟩
  exact ⟨_, _, rfl, rfl, ((in_use_lists appended).1 1 _ rfl).2.1⟩

/-- After a fork both processes append to the block that they share, and the parent fails the
`CHECK` when it frees what it appended. -/
theorem both_append :
    ∃ s proc, (Holders.system inWindow).Reachable s ∧ s.procs 1 = some proc ∧
      blockB ∈ proc.live ∧ remove (s.view inWindow proc) proc.list blockB = none := by
  have start : (Holders.system inWindow).Reachable _ :=
    Lib.System.Reachable.init (Holders.Initial.start 1 zeroLinks zeroLinks)
  have first := start.step ⟨.allocate 1 blockA, Holders.Step.allocate 1 blockA _ rfl (by decide) rfl⟩
  have forked := first.step ⟨.fork 1 2, Holders.Step.fork 1 2 _ rfl rfl⟩
  have parent := forked.step ⟨.allocate 1 blockB, Holders.Step.allocate 1 blockB _ rfl (by decide) rfl⟩
  have child := parent.step ⟨.allocate 2 blockC, Holders.Step.allocate 2 blockC _ rfl (by decide) rfl⟩
  exact ⟨_, _, child, rfl, by decide, rfl⟩

end Scudo.Secondary
