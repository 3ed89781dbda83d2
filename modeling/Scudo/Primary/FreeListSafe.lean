import Scudo.Primary.GroupMerge
import Scudo.Primary.LocalCache

/-!
Where the blocks are: what the free lists, the mapped pages and a thread are worth, and that the
operations under the lock of a free list keep it.
-/

namespace Scudo.Primary.Allocator64
open Scudo.Lib.Guarded

abbrev Places (n : Nat) := Fin n → Multiset Nat

abbrev Worker (n : Nat) := Thread (Locals n) (Resource (n := n))

theorem single_add {n : Nat} (I : Fin n) (x y : Multiset Nat) :
    (Pi.single I (x + y) : Places n) = Pi.single I x + Pi.single I y :=
  Pi.single_add (f := fun _ => Multiset Nat) I x y

section Own

variable {n : Nat} {own own' own'' : Locals n} {I : Fin n} {blocks : Multiset Nat}

theorem take_eq {rest : Places n} (has : own.hand = rest + Pi.single I blocks) :
    own.take I blocks = { own with hand := rest } := by
  have taken : own.hand - Pi.single I blocks = rest := by
    rw [has]
    funext J
    exact add_tsub_cancel_right (rest J) _
  unfold Locals.take
  rw [taken]

end Own

variable {n : Nat} [NeZero n]

section Discipline

variable (c : BlockConfig n)

/-- The blocks of a region from `first` on. -/
def unallocated (I : Fin n) (first : Nat) : Multiset Nat :=
  (List.range' first (c.limit I - first)).map (c.block I)

variable {c} in
theorem mem_unallocated {I : Fin n} {first x : Nat} :
    x ∈ unallocated c I first ↔ ∃ k, first ≤ k ∧ k < c.limit I ∧ x = c.block I k := by
  unfold unallocated
  rw [Multiset.mem_coe, List.mem_map]
  constructor
  · rintro ⟨k, inside, rfl⟩
    rw [List.mem_range'_1] at inside
    exact ⟨k, inside.1, by omega, rfl⟩
  · rintro ⟨k, le, lt, rfl⟩
    exact ⟨k, List.mem_range'_1.mpr ⟨le, by omega⟩, rfl⟩

/-- All blocks are of the regions. -/
def InRegions (places : Places n) : Prop := ∀ I, ∀ x ∈ places I, x ∈ unallocated c I 0

theorem inRegions_add (p q : Places n) : InRegions c (p + q) ↔ InRegions c p ∧ InRegions c q := by
  unfold InRegions
  rw [← forall_and]
  refine forall_congr' fun I => ?_
  rw [← forall_and]
  refine forall_congr' fun x => ?_
  rw [Pi.add_apply, Multiset.mem_add]
  exact or_imp

/-- What a thread has: the slots of its caches, the blocks in its hands, and the groups that it
releases with the blocks they are made of. -/
def Locals.places (own : Locals n) : Places n :=
  (fun I => (own.chunks I : Multiset Nat)) + own.hand +
    Pi.single own.releaseClass (recorded own.groupsToRelease) +
    Pi.single 0 (nodes own.groupsToRelease)

/-- What a free list has. The nodes of the batch class are recorded in the list, but for a group
without a batch. -/
def listPlaces (I : Fin n) (groups : List GroupNode) : Places n :=
  if I = 0 then Pi.single 0 (recorded groups + lone groups)
  else Pi.single I (recorded groups) + Pi.single 0 (nodes groups)

theorem listPlaces_zero (groups : List GroupNode) :
    listPlaces (0 : Fin n) groups = Pi.single 0 (recorded groups + lone groups) := if_pos rfl

theorem listPlaces_other {I : Fin n} (other : I ≠ 0) (groups : List GroupNode) :
    listPlaces I groups = Pi.single I (recorded groups) + Pi.single 0 (nodes groups) := if_neg other

/-- The blocks above `AllocatedUser`, without those that are being added. -/
def MemMapInfo.places (I : Fin n) (info : MemMapInfo) : Places n :=
  Pi.single I (unallocated c I (info.allocatedUser / c.getSizeByClassId I + info.numberOfBlocks))

structure MemMapInfo.Intact (I : Fin n) (info : MemMapInfo) : Prop where
  whole : c.getSizeByClassId I ∣ info.allocatedUser
  room : info.allocatedUser + info.numberOfBlocks * c.getSizeByClassId I ≤ info.mappedUser
  inside : info.mappedUser ≤ c.regionSize - c.regionBase I
  ahead : info.mappedUser <
    info.allocatedUser + c.maxNumCachedHint * c.getSizeByClassId I + c.mapSizeIncrement

structure Locals.Sound (own : Locals n) : Prop where
  chunks_le : ∀ I, (own.chunks I).length ≤ c.maxCount I
  released : ListSettled c own.groupsToRelease
  class_ne : own.groupsToRelease ≠ [] → own.releaseClass ≠ 0

def batchClassMax : Nat := c.getMaxCached (c.getSizeByClassId 0)

/-- The free list of a class between two operations. -/
def Settled (I : Fin n) (groups : List GroupNode) : Prop :=
  (I = 0 → BatchClassIntact (batchClassMax c) groups) ∧ (I ≠ 0 → ListSettled c groups)

def discipline : Discipline (Locals n) (Resource (n := n)) (Places n) where
  own := Locals.places
  guarded
    | .flLock I, info => listPlaces I info.blockList
    | .mmLock I, info => info.places c I
  allowed := InRegions c
  allowed_add := inRegions_add c
  ownSound := Locals.Sound c
  intact
    | .flLock I, info => I = 0 → BatchClassIntact (batchClassMax c) info.blockList
    | .mmLock I, info => info.Intact c I
  settled
    | .flLock I, info => Settled c I info.blockList
    | .mmLock I, info => info.Intact c I ∧ info.numberOfBlocks = 0
  intact_of_settled
    | .flLock _, _, settled => settled.1
    | .mmLock _, _, settled => settled.1

end Discipline

/-- What a thread has in its hands are blocks of the regions. -/
theorem good_hand {c : BlockConfig n} {th : Worker n} (good : (discipline c).Good th) :
    InRegions c th.own.hand := by
  have all : InRegions c th.own.places := good.allowed
  unfold Locals.places at all
  exact ((inRegions_add c _ _).mp ((inRegions_add c _ _).mp ((inRegions_add c _ _).mp all).1).1).2

section Kept

variable {c : BlockConfig n} {own own' own'' : Locals n} {I : Fin n} {hand hand' : Places n}

theorem Locals.Sound.of_hand (sound : own.Sound c) (hand : Places n) :
    Locals.Sound c { own with hand := hand } :=
  ⟨sound.chunks_le, sound.released, sound.class_ne⟩

/-- What an operation for a class leaves to a thread: only the slots of the batch class change, and
these only where it is for another class. -/
structure Kept (I : Fin n) (own own' : Locals n) : Prop where
  chunks : ∀ J, J ≠ 0 ∨ I = 0 → own'.chunks J = own.chunks J
  groups : own'.groupsToRelease = own.groupsToRelease
  class_ : own'.releaseClass = own.releaseClass
  flushed : own'.flushed = own.flushed

theorem Kept.of_hand : Kept I own { own with hand := hand } := ⟨fun _ _ => rfl, rfl, rfl, rfl⟩

theorem Kept.refl : Kept I own own := Kept.of_hand

theorem Kept.trans (first : Kept I own own') (second : Kept I own' own'') : Kept I own own'' :=
  ⟨fun J other => (second.chunks J other).trans (first.chunks J other),
    second.groups.trans first.groups, second.class_.trans first.class_,
    second.flushed.trans first.flushed⟩

end Kept

section Lists

variable {c : BlockConfig n} {I : Fin n} {α β : Type} {th th' th'' : Worker n}
  {groups groups' groups'' : List GroupNode} {populating : Bool} {hand hand' rest : Places n}

/-- What a thread has after it has worked with a resource, and which blocks are in its hands. -/
structure Leaves (I : Fin n) (l : Lock n) (r : Option (Resource l)) (hand : Places n)
    (th th' : Worker n) : Prop where
  held : th'.held = Function.update th.held l r
  kept : Kept I th.own th'.own
  hand : th'.own.hand = hand

namespace Leaves

variable {l : Lock n} {r r' : Option (Resource l)}

theorem there (leaves : Leaves I l r hand th th') : th'.held l = r := by
  rw [leaves.held, Function.update_self]

theorem trans (first : Leaves I l r hand th th') (second : Leaves I l r' hand' th' th'') :
    Leaves I l r' hand' th th'' :=
  ⟨by rw [second.held, first.held, Function.update_idem], first.kept.trans second.kept, second.hand⟩

theorem of_held (there : th.held l = r) (held : th'.held = th.held) (kept : Kept I th.own th'.own)
    (hand : th'.own.hand = hand') : Leaves I l r hand' th th' :=
  ⟨by rw [held, ← there, Function.update_eq_self], kept, hand⟩

theorem refl (there : th.held l = r) (has : th.own.hand = hand) : Leaves I l r hand th th :=
  of_held there rfl Kept.refl has

end Leaves

/-- The thread has these groups in the list that it has locked. -/
abbrev After (I : Fin n) (groups : List GroupNode) (populating : Bool) (hand : Places n)
    (th th' : Worker n) : Prop :=
  Leaves I (.flLock I) (some ⟨groups, populating⟩) hand th th'

/-- An action on the list that the thread has locked. -/
theorem onList_safe {f : Locals n → List GroupNode → (Locals n × List GroupNode) × α}
    (hand : Places n) (groups' : List GroupNode) (a : α) {post : α → Worker n → Prop}
    (list : th.held (.flLock I) = some ⟨groups, populating⟩)
    (step : f th.own groups = (({ th.own with hand := hand }, groups'), a))
    (moves : hand + listPlaces I groups' = th.own.hand + listPlaces I groups)
    (intact : I = 0 → BatchClassIntact (batchClassMax c) groups')
    (holds : ∀ th', After I groups' populating hand th th' → post a th') :
    (discipline c).Safe (onList I f) post th := by
  apply Discipline.Safe.under list
  intro good _
  simp only [step]
  refine ⟨?_, good.own.of_hand hand, intact, holds _ ⟨rfl, Kept.of_hand, rfl⟩⟩
  change Locals.places { th.own with hand := hand } + listPlaces I groups' =
    th.own.places + listPlaces I groups
  unfold Locals.places
  calc _ = (fun J => (th.own.chunks J : Multiset Nat)) +
            Pi.single th.own.releaseClass (recorded th.own.groupsToRelease) +
            Pi.single 0 (nodes th.own.groupsToRelease) + (hand + listPlaces I groups') := by abel
    _ = _ := by
      rw [moves]
      abel

theorem onList_bind {f : Locals n → List GroupNode → (Locals n × List GroupNode) × α}
    (hand : Places n) (groups' : List GroupNode) (a : α) {k : α → Run n β} {post : β → Worker n → Prop}
    (list : th.held (.flLock I) = some ⟨groups, populating⟩)
    (step : f th.own groups = (({ th.own with hand := hand }, groups'), a))
    (moves : hand + listPlaces I groups' = th.own.hand + listPlaces I groups)
    (intact : I = 0 → BatchClassIntact (batchClassMax c) groups')
    (next : ∀ th', After I groups' populating hand th th' → (discipline c).Safe (k a) post th') :
    (discipline c).Safe (onList I f >>= k) post th := by
  have safe : (discipline c).Safe (onList I f)
      (fun b th' => b = a ∧ After I groups' populating hand th th') th :=
    onList_safe hand groups' a list step moves intact fun th' after => ⟨rfl, after⟩
  refine Discipline.Safe.bind safe ?_
  rintro _ th' - ⟨rfl, after⟩
  exact next th' after

/-- An action that looks at the list only. -/
theorem onList_look {f : Locals n → List GroupNode → α} {k : α → Run n β} {post : β → Worker n → Prop}
    (list : th.held (.flLock I) = some ⟨groups, populating⟩)
    (next : ∀ th', After I groups populating th.own.hand th th' →
      (discipline c).Safe (k (f th.own groups)) post th') :
    (discipline c).Safe ((onList I fun own groups => ((own, groups), f own groups)) >>= k) post th := by
  apply Discipline.Safe.of_good
  intro good
  exact onList_bind _ _ _ list rfl rfl (good.held (.flLock I) _ list) next

/-- What a thread has after an operation that gives back every lock that it takes. -/
structure Returned (I : Fin n) (hand : Places n) (th th' : Worker n) : Prop where
  held : th'.held = th.held
  kept : Kept I th.own th'.own
  hand : th'.own.hand = hand

/-- The batch class as the other classes use it. -/
structure BatchClass.Safe (c : BlockConfig n) (ops : BatchClass n) : Prop where
  getBatchClassBlock : ∀ {I : Fin n}, I ≠ 0 → ∀ th : Worker n,
    (discipline c).Safe ops.getBatchClassBlock
      (fun block th' => Returned I (th.own.hand + Pi.single 0 {block}) th th') th
  deallocate : ∀ {I : Fin n}, I ≠ 0 → ∀ (th : Worker n) (rest : Places n) (block : Nat),
    th.own.hand = rest + Pi.single 0 {block} →
    (discipline c).Safe (ops.deallocate block) (fun _ th' => Returned I rest th th') th

variable {ops : BatchClass n}

theorem deallocateNode_safe (safe : ops.Safe c) (other : I ≠ 0) {node : Option Nat}
    (has : th.own.hand = rest + Pi.single 0 (ofNode node)) :
    (discipline c).Safe (deallocateNode ops node) (fun _ th' => Returned I rest th th') th := by
  cases node with
  | none =>
    apply Discipline.Safe.pure
    intro _
    refine ⟨rfl, Kept.refl, ?_⟩
    rw [has, ofNode_none, Pi.single_zero, add_zero]
  | some node => exact safe.deallocate other th rest node has

end Lists

section Pop

variable {c : BlockConfig n} {ops : BatchClass n} {I : Fin n} {th th' : Worker n}
  {groups : List GroupNode} {populating : Bool} {maxBlockCount : Nat}

/-- The most blocks that are popped at once. -/
def popMax (c : BlockConfig n) (I : Fin n) (maxBlockCount : Nat) : Nat :=
  if I = 0 then batchClassMax c else maxBlockCount

/-- The blocks that were popped are in the thread's hands. -/
structure Popped (c : BlockConfig n) (I : Fin n) (maxBlockCount : Nat) (populating : Bool)
    (th : Worker n) (blocks : List Nat) (th' : Worker n) : Prop where
  after : ∃ groups, Settled c I groups ∧
    After I groups populating (th.own.hand + Pi.single I (blocks : Multiset Nat)) th th'
  length_le : blocks.length ≤ popMax c I maxBlockCount

theorem popBatchClass_safe (list : th.held (.flLock 0) = some ⟨groups, populating⟩) :
    (discipline c).Safe (popBlocksImpl ops 0 maxBlockCount)
      (Popped c 0 maxBlockCount populating th) th := by
  apply Discipline.Safe.of_good
  intro good
  have intact : BatchClassIntact (batchClassMax c) groups := good.held (.flLock 0) _ list rfl
  obtain ⟨⟨rest, blocks⟩, pop⟩ : ∃ x, popBatchClass (n := n) maxBlockCount groups = x := ⟨_, rfl⟩
  obtain ⟨left, length⟩ := popBatchClass_intact (c.getMaxCached_pos _) pop intact
  have moves := popBatchClass_moves pop
  unfold popBlocksImpl
  rw [if_pos rfl]
  refine onList_safe (th.own.hand + Pi.single 0 (blocks : Multiset Nat)) rest blocks list
    (by simp only [pop, Locals.give]) ?_ (fun _ => left) ?_
  · rw [listPlaces_zero, listPlaces_zero, ← moves, single_add _ _ (blocks : Multiset Nat)]
    abel
  · intro th' after
    exact ⟨⟨rest, ⟨fun _ => left, fun other => absurd rfl other⟩, after⟩, length.trans_eq (if_pos rfl).symm⟩

theorem popBlocksImpl_safe (safe : I ≠ 0 → ops.Safe c)
    (list : th.held (.flLock I) = some ⟨groups, populating⟩) (settled : Settled c I groups) :
    (discipline c).Safe (popBlocksImpl ops I maxBlockCount)
      (Popped c I maxBlockCount populating th) th := by
  by_cases batchClass : I = 0
  · subst batchClass
    exact popBatchClass_safe list
  · obtain ⟨⟨rest, blocks, unlinked⟩, pop⟩ : ∃ x, popFront I maxBlockCount groups = x := ⟨_, rfl⟩
    have settled := settled.2 batchClass
    obtain ⟨blocks_, nodes_⟩ := popFront_moves settled.batched pop
    obtain ⟨kept, dropped, length⟩ := popFront_settled batchClass settled pop
    have bound : blocks.length ≤ popMax c I maxBlockCount := by
      unfold popMax
      rw [if_neg batchClass]
      exact length
    unfold popBlocksImpl
    rw [if_neg batchClass]
    refine onList_bind
      (th.own.hand + Pi.single I (blocks : Multiset Nat) + Pi.single 0 (ofNode unlinked)) rest
      (blocks, unlinked) list (by simp only [pop, Locals.give]) ?_ (fun zero => absurd zero batchClass) ?_
    · rw [listPlaces_other batchClass, listPlaces_other batchClass, ← blocks_, ← nodes_,
        single_add _ _ (blocks : Multiset Nat), single_add _ _ (ofNode unlinked)]
      abel
    · intro th₁ first
      dsimp only
      cases unlinked with
      | none =>
        rw [if_neg (by simp)]
        apply Discipline.Safe.pure
        intro _
        refine ⟨⟨rest, ⟨fun zero => absurd zero batchClass, fun _ => kept rfl⟩, ?_⟩, bound⟩
        rw [ofNode_none, Pi.single_zero, add_zero] at first
        exact first
      | some node =>
        rw [Option.isSome_some, if_pos rfl]
        refine Discipline.Safe.bind (deallocateNode_safe (safe batchClass) batchClass first.hand) ?_
        rintro _ th₂ - ⟨held₂, kept₂, hand₂⟩
        have second := first.trans (Leaves.of_held first.there held₂ kept₂ hand₂)
        obtain ⟨⟨left, group⟩, drop⟩ : ∃ x, dropEmptyGroup rest = x := ⟨_, rfl⟩
        obtain ⟨same, nodes'⟩ := dropEmptyGroup_moves drop
        refine onList_bind (th₂.own.hand + Pi.single 0 (ofNode group)) left group second.there
          (by simp only [drop, Locals.give]) ?_ (fun zero => absurd zero batchClass) ?_
        · rw [listPlaces_other batchClass, listPlaces_other batchClass, ← same, ← nodes',
            single_add _ _ (ofNode group)]
          abel
        · intro th₃ third
          refine Discipline.Safe.bind
            (deallocateNode_safe (safe batchClass) batchClass third.hand) ?_
          rintro _ th₄ - ⟨held₄, kept₄, hand₄⟩
          apply Discipline.Safe.pure
          intro _
          have last := (second.trans third).trans (Leaves.of_held third.there held₄ kept₄ hand₄)
          rw [hand₂] at last
          have settled_ : ListSettled c left := by
            have final := dropped (by simp)
            rw [drop] at final
            exact final
          exact ⟨⟨left, ⟨fun zero => absurd zero batchClass, fun _ => settled_⟩, last⟩, bound⟩

end Pop

end Scudo.Primary.Allocator64
