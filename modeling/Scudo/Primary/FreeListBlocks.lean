import Mathlib.Tactic.Abel
import Scudo.Primary.FreeLists

/-!
Which blocks a free list records, and in which blocks its nodes live. What each operation on the
list takes and gives.
-/

namespace Scudo.Primary.Allocator64

/-- The recorded blocks, and the blocks of the nodes. -/
def BatchNode.blocks (batch : BatchNode) : Multiset Nat := batch.batch

def recordedBy (batches : List BatchNode) : Multiset Nat := (batches.map BatchNode.blocks).sum

def recorded (groups : List GroupNode) : Multiset Nat :=
  (groups.map fun group => recordedBy group.batches).sum

def batchNodes (batches : List BatchNode) : Multiset Nat :=
  (batches.map fun batch => ({batch.addr} : Multiset Nat)).sum

def GroupNode.nodes (group : GroupNode) : Multiset Nat := {group.addr} + batchNodes group.batches

def nodes (groups : List GroupNode) : Multiset Nat := (groups.map GroupNode.nodes).sum

/-- A group without a batch. In the batch class nothing records it. -/
def GroupNode.lone (group : GroupNode) : Multiset Nat :=
  if group.batches = [] then {group.addr} else 0

def lone (groups : List GroupNode) : Multiset Nat := (groups.map GroupNode.lone).sum

section Equations

variable (batch : BatchNode) (batches others : List BatchNode) (group : GroupNode)
  (groups groups' : List GroupNode)

@[simp] theorem recordedBy_nil : recordedBy [] = 0 := rfl
@[simp] theorem recordedBy_cons : recordedBy (batch :: batches) = batch.blocks + recordedBy batches := by
  simp [recordedBy]
@[simp] theorem recordedBy_append :
    recordedBy (batches ++ others) = recordedBy batches + recordedBy others := by
  simp [recordedBy]

@[simp] theorem batchNodes_nil : batchNodes [] = 0 := rfl
@[simp] theorem batchNodes_cons :
    batchNodes (batch :: batches) = {batch.addr} + batchNodes batches := by
  simp [batchNodes]
@[simp] theorem batchNodes_append :
    batchNodes (batches ++ others) = batchNodes batches + batchNodes others := by
  simp [batchNodes]

@[simp] theorem recorded_nil : recorded [] = 0 := rfl
@[simp] theorem recorded_cons :
    recorded (group :: groups) = recordedBy group.batches + recorded groups := by
  simp [recorded]
@[simp] theorem recorded_append : recorded (groups ++ groups') = recorded groups + recorded groups' := by
  simp [recorded]

@[simp] theorem nodes_nil : nodes [] = 0 := rfl
@[simp] theorem nodes_cons : nodes (group :: groups) = group.nodes + nodes groups := by
  simp [nodes]
@[simp] theorem nodes_append : nodes (groups ++ groups') = nodes groups + nodes groups' := by
  simp [nodes]

@[simp] theorem lone_nil : lone [] = 0 := rfl
@[simp] theorem lone_cons : lone (group :: groups) = group.lone + lone groups := by
  simp [lone]

end Equations

section Pop

variable {n : Nat} [NeZero n] {I : Fin n} {maxBlockCount : Nat} {groups rest : List GroupNode}
  {blocks : List Nat} {unlinked : Option Nat}

/-- No group is without a batch. -/
def AllBatched (groups : List GroupNode) : Prop := ∀ group ∈ groups, group.batches ≠ []

/-- What `popFront` does to a list that is not empty: the front batch is `left ++ blocks`. -/
structure PopsFrom (group : GroupNode) (others : List GroupNode) (batch : BatchNode)
    (batches : List BatchNode) (rest : List GroupNode) (blocks left : List Nat)
    (unlinked : Option Nat) : Prop where
  front : group.batches = batch :: batches
  split : batch.batch = left ++ blocks
  rest_eq : rest = (if left = [] then { group with batches := batches }
    else { group with batches := { batch with batch := left } :: batches }) :: others
  unlinked_eq : unlinked = if left = [] then some batch.addr else none

theorem popFront_cons {group : GroupNode} {others : List GroupNode} (batched : group.batches ≠ [])
    (pop : popFront I maxBlockCount (group :: others) = (rest, blocks, unlinked)) :
    ∃ batch batches left, PopsFrom group others batch batches rest blocks left unlinked ∧
      blocks.length = if I = 0 then batch.getCount else min maxBlockCount batch.getCount := by
  cases front : group.batches with
  | nil => exact absurd front batched
  | cons batch batches =>
    simp only [popFront, front] at pop
    generalize count : (if I = 0 then batch.getCount else min maxBlockCount batch.getCount) = popCount
      at pop ⊢
    have le : popCount ≤ batch.getCount := by
      rw [← count]
      split_ifs
      · exact le_rfl
      · exact Nat.min_le_right _ _
    have split := (List.take_append_drop (batch.getCount - popCount) batch.batch).symm
    have length : (batch.batch.drop (batch.getCount - popCount)).length = popCount := by
      rw [List.length_drop]
      exact Nat.sub_sub_self le
    split_ifs at pop with empty
    · obtain ⟨rfl, rfl, rfl⟩ := pop
      exact ⟨batch, batches, _, ⟨front, split, by rw [if_pos empty], by rw [if_pos empty]⟩, length.trans count.symm⟩
    · obtain ⟨rfl, rfl, rfl⟩ := pop
      exact ⟨batch, batches, _, ⟨front, split, by rw [if_neg empty], by rw [if_neg empty]⟩, length.trans count.symm⟩

theorem PopsFrom.moves {group : GroupNode} {others : List GroupNode} {batch : BatchNode}
    {batches : List BatchNode} {left : List Nat}
    (pops : PopsFrom group others batch batches rest blocks left unlinked) :
    recorded rest + blocks = recorded (group :: others) ∧
      nodes rest + ofNode unlinked = nodes (group :: others) := by
  rw [pops.rest_eq, pops.unlinked_eq]
  have parts : (batch.batch : Multiset Nat) = left + blocks := by
    rw [pops.split, Multiset.coe_add]
  split_ifs with empty
  · subst empty
    simp only [recorded_cons, nodes_cons, pops.front, recordedBy_cons, batchNodes_cons, parts,
      GroupNode.nodes, BatchNode.blocks, Multiset.coe_nil, zero_add, ofNode_some]
    exact ⟨by abel, by abel⟩
  · simp only [recorded_cons, nodes_cons, pops.front, recordedBy_cons, batchNodes_cons, parts,
      GroupNode.nodes, BatchNode.blocks, ofNode_none, add_zero]
    exact ⟨by abel, trivial⟩

theorem popFront_moves (batched : AllBatched groups)
    (pop : popFront I maxBlockCount groups = (rest, blocks, unlinked)) :
    recorded rest + blocks = recorded groups ∧ nodes rest + ofNode unlinked = nodes groups := by
  cases groups with
  | nil =>
    obtain ⟨rfl, rfl, rfl⟩ := pop
    simp
  | cons group others =>
    obtain ⟨batch, batches, left, pops, -⟩ := popFront_cons (batched group List.mem_cons_self) pop
    exact pops.moves

theorem dropEmptyGroup_moves (drop : dropEmptyGroup groups = (rest, unlinked)) :
    recorded rest = recorded groups ∧ nodes rest + ofNode unlinked = nodes groups := by
  cases groups with
  | nil =>
    obtain ⟨rfl, rfl⟩ := drop
    simp
  | cons group others =>
    simp only [dropEmptyGroup] at drop
    split_ifs at drop with empty
    · obtain ⟨rfl, rfl⟩ := drop
      simp [empty, GroupNode.nodes, add_comm]
    · obtain ⟨rfl, rfl⟩ := drop
      simp

theorem lone_of_batched {group : GroupNode} (batched : group.batches ≠ []) : group.lone = 0 :=
  if_neg batched

theorem popBatchClass_moves (pop : popBatchClass (n := n) maxBlockCount groups = (rest, blocks)) :
    recorded rest + lone rest + blocks = recorded groups + lone groups := by
  cases groups with
  | nil =>
    obtain ⟨rfl, rfl⟩ := pop
    simp
  | cons group others =>
    by_cases batched : group.batches = []
    · simp only [popBatchClass, popFront, batched] at pop
      obtain ⟨rfl, rfl⟩ := pop
      simp only [recorded_cons, lone_cons, GroupNode.lone, batched, recordedBy_nil, zero_add, if_true,
        Multiset.coe_singleton]
      abel
    · obtain ⟨⟨after, taken, unlinked⟩, first⟩ :
          ∃ x, popFront (0 : Fin n) maxBlockCount (group :: others) = x := ⟨_, rfl⟩
      obtain ⟨batch, batches, left, pops, -⟩ := popFront_cons batched first
      have moves := pops.moves.1
      have before : lone (group :: others) = lone others := by
        rw [lone_cons, lone_of_batched batched, zero_add]
      simp only [popBatchClass, first] at pop
      rw [before, ← moves]
      have same := pops.rest_eq
      have which := pops.unlinked_eq
      split_ifs at same which with empty
      · subst which
        obtain ⟨rfl, rfl⟩ := pop
        rw [same]
        simp only [dropEmptyGroup]
        split_ifs with last
        · simp only [recorded_cons, last, recordedBy_nil, zero_add]
          abel
        · simp only [recorded_cons, lone_cons, GroupNode.lone, if_neg last, zero_add]
          abel
      · subst which
        obtain ⟨rfl, rfl⟩ := pop
        rw [same]
        simp only [recorded_cons, lone_cons, GroupNode.lone, if_false, reduceCtorEq, zero_add]
        abel

end Pop

section PushBatchClass

variable {n : Nat} [NeZero n] (c : BlockConfig n)

theorem appendBatchClass_recorded (max : Nat) (curBatch : BatchNode) (batches : List BatchNode)
    (array : List Nat) :
    recordedBy (appendBatchClass max curBatch batches array) =
      recordedBy (curBatch :: batches) + (array : Multiset Nat) := by
  fun_induction appendBatchClass max curBatch batches array with
  | case1 curBatch batches => simp
  | case2 curBatch batches first others unusedSlots full appendSize ih =>
    have parts : (others : Multiset Nat) = others.take appendSize + others.drop appendSize := by
      rw [Multiset.coe_add, List.take_append_drop]
    rw [ih]
    simp only [recordedBy_cons, BatchNode.blocks, ← Multiset.cons_coe, parts, ← Multiset.singleton_add]
    abel
  | case3 curBatch batches first others unusedSlots open_ appendSize ih =>
    have parts : ((first :: others : List Nat) : Multiset Nat) =
        (first :: others).take appendSize + (first :: others).drop appendSize := by
      rw [Multiset.coe_add, List.take_append_drop]
    rw [ih, parts]
    simp only [recordedBy_cons, BatchNode.blocks, ← Multiset.coe_add]
    abel

theorem appendBatchClass_ne_nil (max : Nat) (curBatch : BatchNode) (batches : List BatchNode)
    (array : List Nat) : appendBatchClass max curBatch batches array ≠ [] := by
  fun_induction appendBatchClass max curBatch batches array with
  | case1 => exact List.cons_ne_nil _ _
  | case2 _ _ _ _ _ _ _ ih => exact ih
  | case3 _ _ _ _ _ _ _ ih => exact ih

theorem getLast?_parts {array : List Nat} {last : Nat} (some_ : array.getLast? = some last) :
    (array : Multiset Nat) = array.dropLast + {last} := by
  obtain ⟨front, rfl⟩ := List.getLast?_eq_some_iff.mp some_
  rw [List.dropLast_concat, ← Multiset.coe_add, Multiset.coe_singleton]

theorem pushBatchClassGroup_moves (group : GroupNode) (array : List Nat) :
    recordedBy (pushBatchClassGroup group array).batches + (pushBatchClassGroup group array).lone =
      recordedBy group.batches + group.lone + array := by
  cases some_ : array.getLast? with
  | none =>
    obtain rfl := List.getLast?_eq_none_iff.mp some_
    simp [pushBatchClassGroup]
  | some last =>
    cases front : group.batches with
    | nil =>
      simp only [pushBatchClassGroup, some_, front, GroupNode.lone, appendBatchClass_recorded,
        appendBatchClass_ne_nil, if_true, if_false, recordedBy_cons, recordedBy_nil, BatchNode.blocks,
        getLast?_parts some_]
      simp only [← Multiset.cons_coe, Multiset.coe_nil, ← Multiset.singleton_add]
      abel
    | cons curBatch batches =>
      simp only [pushBatchClassGroup, some_, front, GroupNode.lone, appendBatchClass_recorded,
        appendBatchClass_ne_nil, reduceCtorEq, if_false]
      abel

theorem pushBatchClassBlocks_moves (array : List Nat) (groups : List GroupNode) :
    recorded (pushBatchClassBlocks c array groups) + lone (pushBatchClassBlocks c array groups) =
      recorded groups + lone groups + array := by
  cases groups with
  | nil =>
    cases some_ : array.getLast? with
    | none =>
      obtain rfl := List.getLast?_eq_none_iff.mp some_
      simp [pushBatchClassBlocks]
    | some last =>
      have group := pushBatchClassGroup_moves
        { addr := last, compactPtrGroupBase := 0, batches := [],
          maxCachedPerBatch := c.getMaxCached (c.getSizeByClassId 0) } array.dropLast
      simp only [pushBatchClassBlocks, some_, recorded_cons, lone_cons, recorded_nil, lone_nil, add_zero]
      rw [group, getLast?_parts some_]
      simp only [recordedBy_nil, GroupNode.lone, if_true, zero_add]
      abel
  | cons group others =>
    have first := pushBatchClassGroup_moves group array
    simp only [pushBatchClassBlocks, recorded_cons, lone_cons]
    calc recordedBy (pushBatchClassGroup group array).batches + recorded others +
          ((pushBatchClassGroup group array).lone + lone others)
        = recordedBy (pushBatchClassGroup group array).batches +
            (pushBatchClassGroup group array).lone + (recorded others + lone others) := by abel
      _ = recordedBy group.batches + recorded others + (group.lone + lone others) + array := by
        rw [first]
        abel

end PushBatchClass

section Groups

variable {n : Nat} [NeZero n] (c : BlockConfig n) {before after : List GroupNode} {group : GroupNode}

theorem insertIdx_at : (before ++ after).insertIdx before.length group = before ++ group :: after := by
  induction before with
  | nil => rfl
  | cons first rest ih =>
    rw [List.cons_append, List.length_cons, List.insertIdx_succ_cons, ih, List.cons_append]

/-- `Cur` is the group behind `before`. -/
theorem createGroup_eq (base bg tb : Nat) :
    createGroup c (before ++ after) before.length base bg tb =
      before ++ newGroup c base bg tb :: after := insertIdx_at

theorem modify_at (f : GroupNode → GroupNode) :
    (before ++ group :: after).modify before.length f = before ++ f group :: after := by
  induction before with
  | nil => rfl
  | cons first rest ih =>
    rw [List.cons_append, List.length_cons, List.modify_succ_cons, ih, List.cons_append]

theorem createGroup_moves (base bg tb : Nat) :
    recorded (before ++ newGroup c base bg tb :: after) = recorded (before ++ after) ∧
      nodes (before ++ newGroup c base bg tb :: after) = nodes (before ++ after) + {bg} + {tb} := by
  simp only [recorded_append, recorded_cons, nodes_append, nodes_cons, newGroup, recordedBy_cons,
    recordedBy_nil, BatchNode.blocks, GroupNode.nodes, batchNodes_cons, batchNodes_nil,
    Multiset.coe_nil, add_zero, zero_add, true_and]
  abel

theorem pushFrontBatch_moves (tb : Nat) :
    recorded (before ++ group.pushFront tb :: after) = recorded (before ++ group :: after) ∧
      nodes (before ++ group.pushFront tb :: after) = nodes (before ++ group :: after) + {tb} := by
  simp only [recorded_append, recorded_cons, nodes_append, nodes_cons, GroupNode.pushFront,
    recordedBy_cons, BatchNode.blocks, GroupNode.nodes, batchNodes_cons, Multiset.coe_nil, zero_add,
    true_and]
  abel

theorem appendFromArray_moves (array : List Nat) (batched : group.batches ≠ []) :
    recorded (before ++ group.append array :: after) =
        recorded (before ++ group :: after) + (array : Multiset Nat) ∧
      nodes (before ++ group.append array :: after) = nodes (before ++ group :: after) := by
  obtain ⟨front, batches, parts⟩ := List.exists_cons_of_ne_nil batched
  simp only [recorded_append, recorded_cons, nodes_append, nodes_cons, GroupNode.append, parts,
    List.modifyHead_cons, BatchNode.append, recordedBy_cons, BatchNode.blocks, GroupNode.nodes,
    batchNodes_cons, ← Multiset.coe_add, and_true]
  abel

end Groups

end Scudo.Primary.Allocator64
