import Mathlib.Data.List.Chain
import Mathlib.Data.List.SplitBy
import Mathlib.Data.List.TakeWhile
import Scudo.Primary.FreeListBlocks

/-!
The shape of the free lists: in the batch class every node is recorded, and in the other classes the
groups are sorted, only the first batch of a group may not be full, and a group has its own blocks
only.
-/

namespace Scudo.Primary.Allocator64

section BatchClass

/-- The last batch records the block, besides its own one. -/
def LastRecords (batches : List BatchNode) (x : Nat) : Prop :=
  ∃ batch, batches.getLast? = some batch ∧ {batch.addr} + {x} ≤ batch.blocks

/-- The batch records its own block. -/
def BatchNode.Contained (max : Nat) (batch : BatchNode) : Prop :=
  batch.addr ∈ batch.batch ∧ batch.getCount ≤ max

/-- Every batch records its own block, and the last one that of the group. -/
structure SelfContained (max : Nat) (group : GroupNode) : Prop where
  max_eq : group.maxCachedPerBatch = max
  self : ∀ batch ∈ group.batches, batch.Contained max
  last : group.batches ≠ [] → LastRecords group.batches group.addr

/-- The free list of the batch class has one group at most. -/
def BatchClassIntact (max : Nat) (groups : List GroupNode) : Prop :=
  groups.length ≤ 1 ∧ ∀ group ∈ groups, SelfContained max group

theorem appendBatchClass_self {max : Nat} (positive : 0 < max) {curBatch : BatchNode}
    {batches : List BatchNode} {array : List Nat}
    (self : ∀ batch ∈ curBatch :: batches, batch.Contained max) :
    ∀ batch ∈ appendBatchClass max curBatch batches array, batch.Contained max := by
  fun_induction appendBatchClass max curBatch batches array with
  | case1 => exact self
  | case2 curBatch batches first others unusedSlots full appendSize ih =>
    refine ih (List.forall_mem_cons.mpr ⟨⟨List.mem_cons_self, ?_⟩, self⟩)
    have taken : (others.take appendSize).length ≤ max - 1 := by
      rw [List.length_take]
      exact le_trans (Nat.min_le_left _ _) (Nat.min_le_left _ _)
    change (others.take appendSize).length + 1 ≤ max
    omega
  | case3 curBatch batches first others unusedSlots open_ appendSize ih =>
    obtain ⟨⟨own, count⟩, rest⟩ := List.forall_mem_cons.mp self
    refine ih (List.forall_mem_cons.mpr ⟨⟨List.mem_append_left _ own, ?_⟩, rest⟩)
    have taken : ((first :: others).take appendSize).length ≤ max - curBatch.getCount := by
      rw [List.length_take]
      exact le_trans (Nat.min_le_left _ _) (Nat.min_le_left _ _)
    change (curBatch.batch ++ (first :: others).take appendSize).length ≤ max
    rw [List.length_append]
    change curBatch.batch.length ≤ max at count
    change _ ≤ max - curBatch.batch.length at taken
    omega

theorem appendBatchClass_last {max : Nat} {curBatch : BatchNode} {batches : List BatchNode}
    {array : List Nat} {x : Nat} (last : LastRecords (curBatch :: batches) x) :
    LastRecords (appendBatchClass max curBatch batches array) x := by
  fun_induction appendBatchClass max curBatch batches array with
  | case1 => exact last
  | case2 curBatch batches first others unusedSlots full appendSize ih =>
    obtain ⟨batch, same, member⟩ := last
    exact ih ⟨batch, by rw [List.getLast?_cons_cons, same], member⟩
  | case3 curBatch batches first others unusedSlots open_ appendSize ih =>
    obtain ⟨batch, same, member⟩ := last
    apply ih
    cases batches with
    | nil =>
      obtain rfl : curBatch = batch := Option.some.inj same
      refine ⟨_, rfl, le_trans member ?_⟩
      change (curBatch.batch : Multiset Nat) ≤ (curBatch.batch ++ (first :: others).take appendSize : List Nat)
      rw [← Multiset.coe_add]
      exact Multiset.le_add_right _ _
    | cons second others =>
      rw [List.getLast?_cons_cons] at same
      exact ⟨batch, by rw [List.getLast?_cons_cons, same], member⟩

theorem pushBatchClassGroup_self {max : Nat} (two : 2 ≤ max) {group : GroupNode}
    (intact : SelfContained max group) (array : List Nat) :
    SelfContained max (pushBatchClassGroup group array) := by
  have positive : 0 < max := by omega
  cases some_ : array.getLast? with
  | none => simpa only [pushBatchClassGroup, some_] using intact
  | some last =>
    cases front : group.batches with
    | nil =>
      simp only [pushBatchClassGroup, some_, front]
      refine ⟨intact.max_eq, ?_, fun _ => ?_⟩
      · rw [intact.max_eq]
        apply appendBatchClass_self positive
        intro batch member
        obtain rfl := List.mem_singleton.mp member
        exact ⟨List.mem_cons_self, two⟩
      · apply appendBatchClass_last
        exact ⟨_, rfl, le_rfl⟩
    | cons curBatch batches =>
      simp only [pushBatchClassGroup, some_, front]
      have self := intact.self
      have last := intact.last
      rw [front] at self last
      refine ⟨intact.max_eq, ?_, fun _ => ?_⟩
      · rw [intact.max_eq]
        exact appendBatchClass_self positive self
      · exact appendBatchClass_last (last (List.cons_ne_nil _ _))

variable {n : Nat} [NeZero n] (c : BlockConfig n)

theorem pushBatchClassBlocks_intact {groups : List GroupNode} (array : List Nat)
    (intact : BatchClassIntact (c.getMaxCached (c.getSizeByClassId 0)) groups) :
    BatchClassIntact (c.getMaxCached (c.getSizeByClassId 0)) (pushBatchClassBlocks c array groups) := by
  have two := c.two_le_getMaxCached
  obtain ⟨single, self⟩ := intact
  cases groups with
  | nil =>
    cases some_ : array.getLast? with
    | none =>
      simp only [pushBatchClassBlocks, some_]
      exact ⟨single, self⟩
    | some last =>
      simp only [pushBatchClassBlocks, some_]
      refine ⟨le_rfl, ?_⟩
      intro group member
      obtain rfl := List.mem_singleton.mp member
      apply pushBatchClassGroup_self two
      exact ⟨rfl, fun _ member => absurd member List.not_mem_nil, fun some_ => absurd rfl some_⟩
  | cons group others =>
    obtain ⟨first, rest⟩ := List.forall_mem_cons.mp self
    exact ⟨single, List.forall_mem_cons.mpr ⟨pushBatchClassGroup_self two first array, rest⟩⟩

theorem popBatchClass_intact {max maxBlockCount : Nat} (positive : 0 < max)
    {groups rest : List GroupNode} {blocks : List Nat}
    (pop : popBatchClass (n := n) maxBlockCount groups = (rest, blocks))
    (intact : BatchClassIntact max groups) : BatchClassIntact max rest ∧ blocks.length ≤ max := by
  obtain ⟨single, self⟩ := intact
  cases groups with
  | nil =>
    obtain ⟨rfl, rfl⟩ := pop
    exact ⟨⟨single, self⟩, Nat.zero_le _⟩
  | cons group others =>
    obtain rfl : others = [] := List.length_eq_zero_iff.mp (by simpa using single)
    have first := self group List.mem_cons_self
    have none_ : BatchClassIntact max [] := ⟨Nat.zero_le _, nofun⟩
    by_cases batched : group.batches = []
    · simp only [popBatchClass, popFront, batched] at pop
      obtain ⟨rfl, rfl⟩ := pop
      exact ⟨none_, positive⟩
    · obtain ⟨⟨after, taken, unlinked⟩, popped⟩ :
          ∃ x, popFront (0 : Fin n) maxBlockCount [group] = x := ⟨_, rfl⟩
      obtain ⟨batch, batches, left, pops, length⟩ := popFront_cons batched popped
      rw [if_pos rfl] at length
      -- The whole batch was taken.
      have whole : left = [] := by
        have parts := congrArg List.length pops.split
        rw [List.length_append] at parts
        change batch.batch.length = left.length + taken.length at parts
        change taken.length = batch.batch.length at length
        exact List.length_eq_zero_iff.mp (by omega)
      have count : taken.length ≤ max := by
        rw [length]
        exact (first.self batch (by rw [pops.front]; exact List.mem_cons_self)).2
      have rest_eq := pops.rest_eq
      have unlinked_eq := pops.unlinked_eq
      rw [if_pos whole] at rest_eq unlinked_eq
      simp only [popBatchClass, popped, unlinked_eq, rest_eq, dropEmptyGroup] at pop
      split_ifs at pop with last
      · obtain ⟨rfl, rfl⟩ := pop
        exact ⟨none_, count⟩
      · obtain ⟨rfl, rfl⟩ := pop
        refine ⟨⟨single, ?_⟩, count⟩
        intro group' member
        obtain rfl := List.mem_singleton.mp member
        refine ⟨first.max_eq, ?_, fun _ => ?_⟩
        · intro b there
          exact first.self b (by rw [pops.front]; exact List.mem_cons_of_mem _ there)
        · obtain ⟨b, same, member⟩ := first.last batched
          obtain ⟨second, others, parts⟩ := List.exists_cons_of_ne_nil last
          rw [pops.front, parts, List.getLast?_cons_cons, ← parts] at same
          exact ⟨b, same, member⟩

theorem selfContained_last {max : Nat} {batches : List BatchNode} {x : Nat}
    (self : ∀ batch ∈ batches, batch.Contained max) (last : LastRecords batches x) :
    {x} + batchNodes batches ≤ recordedBy batches := by
  induction batches with
  | nil =>
    obtain ⟨batch, none_, -⟩ := last
    exact absurd none_ nofun
  | cons batch rest ih =>
    obtain ⟨own, others⟩ := List.forall_mem_cons.mp self
    obtain ⟨end_, same, both⟩ := last
    rw [batchNodes_cons, recordedBy_cons]
    cases rest with
    | nil =>
      obtain rfl : batch = end_ := Option.some.inj same
      rw [batchNodes_nil, recordedBy_nil, add_zero, add_zero, add_comm]
      exact both
    | cons second rest =>
      rw [List.getLast?_cons_cons] at same
      calc {x} + ({batch.addr} + batchNodes (second :: rest))
          = {batch.addr} + ({x} + batchNodes (second :: rest)) := add_left_comm _ _ _
        _ ≤ batch.blocks + recordedBy (second :: rest) :=
          add_le_add (Multiset.singleton_le.mpr own.1) (ih others ⟨end_, same, both⟩)

/-- In the batch class all nodes are among the blocks of the list. -/
theorem BatchClassIntact.nodes_le {max : Nat} {groups : List GroupNode}
    (intact : BatchClassIntact max groups) : nodes groups ≤ recorded groups + lone groups := by
  obtain ⟨-, self⟩ := intact
  induction groups with
  | nil => exact le_rfl
  | cons group rest ih =>
    obtain ⟨first, others⟩ := List.forall_mem_cons.mp self
    have own : group.nodes ≤ recordedBy group.batches + group.lone := by
      unfold GroupNode.nodes GroupNode.lone
      split_ifs with none_
      · rw [none_, batchNodes_nil, recordedBy_nil, add_zero, zero_add]
      · rw [add_zero]
        exact selfContained_last first.self (first.last none_)
    calc nodes (group :: rest) = group.nodes + nodes rest := nodes_cons _ _
      _ ≤ recordedBy group.batches + group.lone + (recorded rest + lone rest) :=
        add_le_add own (ih others)
      _ = recorded (group :: rest) + lone (group :: rest) := by
        rw [recorded_cons, lone_cons]
        abel

end BatchClass

section Arrays

variable {n : Nat} [NeZero n] (c : BlockConfig n)

/-- All blocks are of one group. -/
def OneGroup (base : Nat) (array : List Nat) : Prop := ∀ x ∈ array, c.compactPtrGroup x = base

/-- The group of the first block. -/
def headGroup (array : List Nat) : Nat := c.compactPtrGroup (array.headD 0)

def SortedByGroup (array : List Nat) : Prop :=
  array.Pairwise fun x y => c.compactPtrGroup x ≤ c.compactPtrGroup y

theorem insertBlock_perm (cur : Nat) (array : List Nat) : (insertBlock c cur array).Perm (cur :: array) := by
  induction array with
  | nil => exact List.Perm.refl _
  | cons block blocks ih =>
    unfold insertBlock
    split_ifs with lt
    · exact List.Perm.refl _
    · exact (ih.cons block).trans (List.Perm.swap cur block blocks)

theorem insertBlock_sorted (cur : Nat) {array : List Nat} (sorted : SortedByGroup c array) :
    SortedByGroup c (insertBlock c cur array) := by
  induction array with
  | nil => exact List.pairwise_singleton _ _
  | cons block blocks ih =>
    obtain ⟨first, rest⟩ := List.pairwise_cons.mp sorted
    unfold insertBlock
    split_ifs with lt
    · refine List.pairwise_cons.mpr ⟨?_, sorted⟩
      intro x member
      rcases List.mem_cons.mp member with rfl | member
      · exact lt.le
      · exact le_trans lt.le (first x member)
    · refine List.pairwise_cons.mpr ⟨?_, ih rest⟩
      intro x member
      rcases List.mem_cons.mp ((insertBlock_perm c cur blocks).mem_iff.mp member) with rfl | member
      · exact Nat.le_of_not_lt lt
      · exact first x member

theorem foldl_insertBlock (array sorted : List Nat) (before : SortedByGroup c sorted) :
    (array.foldl (fun sorted cur => insertBlock c cur sorted) sorted).Perm (sorted ++ array) ∧
      SortedByGroup c (array.foldl (fun sorted cur => insertBlock c cur sorted) sorted) := by
  induction array generalizing sorted with
  | nil => exact ⟨by simp, before⟩
  | cons cur rest ih =>
    obtain ⟨perm, after⟩ := ih (insertBlock c cur sorted) (insertBlock_sorted c cur before)
    refine ⟨perm.trans ?_, after⟩
    exact ((insertBlock_perm c cur sorted).append_right rest).trans List.perm_middle.symm

theorem sortByGroup_perm (array : List Nat) : (sortByGroup c array).Perm array :=
  (foldl_insertBlock c array [] List.Pairwise.nil).1

theorem sortByGroup_sorted (array : List Nat) : SortedByGroup c (sortByGroup c array) :=
  (foldl_insertBlock c array [] List.Pairwise.nil).2

theorem segments_flatten (array : List Nat) : (segments c array).flatten = array :=
  List.flatten_splitBy _ _

/-- A segment has the blocks of one group. -/
theorem segments_oneGroup {array segment : List Nat} (member : segment ∈ segments c array) :
    segment ≠ [] ∧ ∀ x ∈ segment, c.compactPtrGroup x = headGroup c segment := by
  have some_ := List.ne_nil_of_mem_splitBy member
  have chain := List.isChain_of_mem_splitBy member
  refine ⟨some_, ?_⟩
  obtain ⟨first, rest, rfl⟩ := List.exists_cons_of_ne_nil some_
  have same : (first :: rest).IsChain fun x y => c.compactPtrGroup x = c.compactPtrGroup y :=
    chain.imp fun x y equal => by simpa using equal
  have transitive : IsTrans Nat fun x y => c.compactPtrGroup x = c.compactPtrGroup y :=
    ⟨fun _ _ _ => Eq.trans⟩
  have pairwise := List.isChain_iff_pairwise.mp same
  intro x there
  rcases List.mem_cons.mp there with rfl | there
  · rfl
  · exact ((List.pairwise_cons.mp pairwise).1 x there).symm

/-- The groups of the segments ascend, where the blocks are sorted. -/
theorem segments_ascending {array : List Nat} (sorted : SortedByGroup c array) :
    ((segments c array).map (headGroup c)).IsChain (· < ·) := by
  have differ := List.isChain_getLast_head_splitBy
    (fun x y => c.compactPtrGroup x == c.compactPtrGroup y) array
  have across : (segments c array).Pairwise fun s t =>
      ∀ x ∈ s, ∀ y ∈ t, c.compactPtrGroup x ≤ c.compactPtrGroup y := by
    have flat : SortedByGroup c (segments c array).flatten := by
      rw [segments_flatten]
      exact sorted
    exact (List.pairwise_flatten.mp flat).2
  rw [List.isChain_map, List.isChain_iff_getElem]
  intro i lt
  obtain ⟨someS, someT, unequal⟩ := List.isChain_iff_getElem.mp differ i lt
  have le := List.pairwise_iff_getElem.mp across i (i + 1) (by omega) lt (Nat.lt_succ_self i)
  have ofS := (segments_oneGroup c (List.getElem_mem (by omega : i < (segments c array).length))).2
  have ofT := (segments_oneGroup c (List.getElem_mem lt)).2
  have least := le _ (List.getLast_mem someS) _ (List.head_mem someT)
  have groupS := ofS _ (List.getLast_mem someS)
  have groupT := ofT _ (List.head_mem someT)
  rw [← groupS, ← groupT]
  exact lt_of_le_of_ne least (by simpa using unequal)

end Arrays

section Groups

variable {n : Nat} [NeZero n] (c : BlockConfig n)

/-- A group whose front batch may be empty, as after `CreateGroup`. -/
structure GroupNode.Shaped (group : GroupNode) : Prop where
  max_eq : group.maxCachedPerBatch = c.maxNumCachedHint
  batched : group.batches ≠ []
  count : ∀ batch ∈ group.batches, batch.getCount ≤ c.maxNumCachedHint
  full : ∀ batch ∈ group.batches.tail, batch.getCount = c.maxNumCachedHint
  members : ∀ batch ∈ group.batches, OneGroup c group.compactPtrGroupBase batch.batch

/-- No batch is empty. -/
def GroupNode.Settled (group : GroupNode) : Prop :=
  group.Shaped c ∧ ∀ batch ∈ group.batches, batch.batch ≠ []

/-- The groups ascend. -/
def Sorted (groups : List GroupNode) : Prop :=
  groups.Pairwise fun g h => g.compactPtrGroupBase < h.compactPtrGroupBase

/-- The free list of a class other than the batch class, between two operations. -/
structure ListSettled (groups : List GroupNode) : Prop where
  sorted : Sorted groups
  settled : ∀ group ∈ groups, group.Settled c

/-- The group with `cur` groups before it is the one of this base. -/
def At (groups : List GroupNode) (cur base : Nat) : Prop :=
  ∃ before group after, groups = before ++ group :: after ∧ before.length = cur ∧
    group.compactPtrGroupBase = base

/-- All other groups are settled. -/
structure OpenAt (before : List GroupNode) (group : GroupNode) (after : List GroupNode) : Prop where
  sorted : Sorted (before ++ group :: after)
  shaped : group.Shaped c
  others : ∀ other ∈ before ++ after, other.Settled c

variable {c}

theorem GroupNode.Settled.shaped {group : GroupNode} (settled : group.Settled c) : group.Shaped c :=
  settled.1

theorem ListSettled.batched {groups : List GroupNode} (settled : ListSettled c groups) :
    AllBatched groups :=
  fun group member => (settled.settled group member).shaped.batched

/-- A list is settled or not whatever else is at its groups. -/
theorem Sorted.of_bases {groups groups' : List GroupNode} (sorted : Sorted groups)
    (same : groups'.map GroupNode.compactPtrGroupBase = groups.map GroupNode.compactPtrGroupBase) :
    Sorted groups' := by
  unfold Sorted at *
  rw [← List.pairwise_map (R := (· < ·))] at *
  rw [same]
  exact sorted

theorem OpenAt.settle {before after : List GroupNode} {group : GroupNode}
    (open_ : OpenAt c before group after) (settled : group.Settled c) :
    ListSettled c (before ++ group :: after) := by
  refine ⟨open_.sorted, ?_⟩
  intro other member
  rcases List.mem_append.mp member with member | member
  · exact open_.others other (List.mem_append_left _ member)
  · rcases List.mem_cons.mp member with rfl | member
    · exact settled
    · exact open_.others other (List.mem_append_right _ member)

theorem ListSettled.openAt {before after : List GroupNode} {group : GroupNode}
    (settled : ListSettled c (before ++ group :: after)) : OpenAt c before group after := by
  refine ⟨settled.sorted, (settled.settled group (by simp)).shaped, ?_⟩
  intro other member
  apply settled.settled other
  rcases List.mem_append.mp member with member | member
  · exact List.mem_append_left _ member
  · exact List.mem_append_right _ (List.mem_cons_of_mem _ member)

/-- The group at `Cur` changes and keeps its base. -/
theorem OpenAt.replace {before after : List GroupNode} {group group' : GroupNode}
    (open_ : OpenAt c before group after) (shaped : group'.Shaped c)
    (same : group'.compactPtrGroupBase = group.compactPtrGroupBase) : OpenAt c before group' after :=
  ⟨open_.sorted.of_bases (by simp [same]), shaped, open_.others⟩

/-- The slots of a batch that are not used. -/
theorem unusedSlots_at {before after : List GroupNode} {group : GroupNode} {front : BatchNode}
    {batches : List BatchNode} (parts : group.batches = front :: batches) :
    unusedSlots (before ++ group :: after) before.length = group.maxCachedPerBatch - front.getCount := by
  unfold unusedSlots
  rw [List.getElem?_append_right le_rfl, Nat.sub_self, List.getElem?_cons_zero]
  simp only [parts]
  rfl

theorem newGroup_shaped (base bg tb : Nat) : (newGroup c base bg tb).Shaped c where
  max_eq := rfl
  batched := List.cons_ne_nil _ _
  count := by
    intro batch member
    obtain rfl := List.mem_singleton.mp member
    exact Nat.zero_le _
  full := nofun
  members := by
    intro batch member
    obtain rfl := List.mem_singleton.mp member
    exact nofun

/-- A new front batch, where the front batch is full. -/
theorem GroupNode.Shaped.pushFront {group : GroupNode} {front : BatchNode} {batches : List BatchNode}
    (shaped : group.Shaped c) (parts : group.batches = front :: batches)
    (full : group.maxCachedPerBatch - front.getCount = 0) (tb : Nat) :
    (group.pushFront tb).Shaped c where
  max_eq := shaped.max_eq
  batched := List.cons_ne_nil _ _
  count := List.forall_mem_cons.mpr ⟨Nat.zero_le _, shaped.count⟩
  full := by
    have others := shaped.full
    have le := shaped.count front (by rw [parts]; exact List.mem_cons_self)
    rw [shaped.max_eq] at full
    change ∀ batch ∈ group.batches, batch.getCount = c.maxNumCachedHint
    rw [parts] at others ⊢
    exact List.forall_mem_cons.mpr ⟨by omega, others⟩
  members := List.forall_mem_cons.mpr ⟨nofun, shaped.members⟩

theorem GroupNode.Shaped.append {group : GroupNode} {front : BatchNode} {batches : List BatchNode}
    (shaped : group.Shaped c) (parts : group.batches = front :: batches) {array : List Nat}
    (fits : array.length ≤ group.maxCachedPerBatch - front.getCount)
    (one : OneGroup c group.compactPtrGroupBase array) : (group.append array).Shaped c := by
  have appended : (group.append array).batches = front.append array :: batches := by
    simp [GroupNode.append, parts]
  have count := shaped.count
  have full := shaped.full
  have members := shaped.members
  rw [parts] at count full members
  obtain ⟨frontCount, count⟩ := List.forall_mem_cons.mp count
  obtain ⟨frontMembers, members⟩ := List.forall_mem_cons.mp members
  refine ⟨shaped.max_eq, ?_, ?_, ?_, ?_⟩
  · rw [appended]
    exact List.cons_ne_nil _ _
  · rw [appended]
    refine List.forall_mem_cons.mpr ⟨?_, count⟩
    rw [shaped.max_eq] at fits
    change (front.batch ++ array).length ≤ _
    rw [List.length_append]
    change front.batch.length ≤ _ at frontCount
    change _ ≤ _ - front.batch.length at fits
    omega
  · rw [appended]
    exact full
  · rw [appended]
    refine List.forall_mem_cons.mpr ⟨?_, members⟩
    intro x member
    rcases List.mem_append.mp member with member | member
    · exact frontMembers x member
    · exact one x member

theorem GroupNode.Shaped.settled {group : GroupNode} {front : BatchNode} {batches : List BatchNode}
    (shaped : group.Shaped c) (parts : group.batches = front :: batches) (some_ : front.batch ≠ []) :
    group.Settled c := by
  refine ⟨shaped, ?_⟩
  have full := shaped.full
  rw [parts] at full ⊢
  refine List.forall_mem_cons.mpr ⟨some_, ?_⟩
  intro batch member empty
  have count : batch.batch.length = c.maxNumCachedHint := full batch member
  have positive := c.hint_ge
  rw [empty, List.length_nil] at count
  omega

/-- Appending some blocks fills an empty front batch. -/
theorem GroupNode.Shaped.settled_append {group : GroupNode} {array : List Nat}
    (shaped : (group.append array).Shaped c) (some_ : array ≠ []) : (group.append array).Settled c := by
  obtain ⟨front, batches, parts⟩ := List.exists_cons_of_ne_nil shaped.batched
  apply shaped.settled parts
  have batched := shaped.batched
  cases before : group.batches with
  | nil => simp [GroupNode.append, before] at batched
  | cons first others =>
    rw [GroupNode.append, before, List.modifyHead_cons] at parts
    obtain ⟨rfl, -⟩ := List.cons.inj parts
    exact List.append_ne_nil_of_right_ne_nil _ some_

/-- Where `advance` stops. -/
theorem advance_split {before after : List GroupNode} {base : Nat}
    (sorted : Sorted (before ++ after))
    (below : ∀ group ∈ before, group.compactPtrGroupBase < base) :
    ∃ passed rest, before ++ after = passed ++ rest ∧
      passed.length = advance (before ++ after) before.length base ∧
      (∀ group ∈ passed, group.compactPtrGroupBase < base) ∧
      ∀ group ∈ rest, base ≤ group.compactPtrGroupBase := by
  refine ⟨before ++ after.takeWhile fun group => group.compactPtrGroupBase < base,
    after.dropWhile fun group => group.compactPtrGroupBase < base, ?_, ?_, ?_, ?_⟩
  · rw [List.append_assoc, List.takeWhile_append_dropWhile]
  · simp [advance]
  · intro group member
    rcases List.mem_append.mp member with member | member
    · exact below group member
    · have passed := List.mem_takeWhile_imp member
      simpa using passed
  · have suffix : Sorted (after.dropWhile fun group => group.compactPtrGroupBase < base) :=
      ((List.pairwise_append.mp sorted).2.1).sublist (List.dropWhile_sublist _)
    have head := List.head?_dropWhile_not (fun group : GroupNode => group.compactPtrGroupBase < base)
      after
    cases rest : after.dropWhile fun group => group.compactPtrGroupBase < base with
    | nil => exact nofun
    | cons first others =>
      rw [rest] at suffix head
      have least : base ≤ first.compactPtrGroupBase := by simpa using head
      refine List.forall_mem_cons.mpr ⟨least, ?_⟩
      intro group member
      exact le_trans least ((List.pairwise_cons.mp suffix).1 group member).le

/-- The new group is between the groups below it and those above it. -/
theorem createGroup_open {passed rest : List GroupNode} {base : Nat} (bg tb : Nat)
    (settled : ListSettled c (passed ++ rest))
    (below : ∀ group ∈ passed, group.compactPtrGroupBase < base)
    (above : ∀ group ∈ rest, base < group.compactPtrGroupBase) :
    OpenAt c passed (newGroup c base bg tb) rest := by
  obtain ⟨first, second, across⟩ := List.pairwise_append.mp settled.sorted
  refine ⟨?_, newGroup_shaped base bg tb, settled.settled⟩
  refine List.pairwise_append.mpr ⟨first, List.pairwise_cons.mpr ⟨above, second⟩, ?_⟩
  intro group member
  exact List.forall_mem_cons.mpr ⟨below group member, across group member⟩

/-- After `popFront`: the list is settled, or it is once `dropEmptyGroup` has unlinked a group whose
last batch was unlinked. -/
theorem PopsFrom.settled {group : GroupNode} {others rest : List GroupNode} {batch : BatchNode}
    {batches : List BatchNode} {blocks left : List Nat} {unlinked : Option Nat}
    (pops : PopsFrom group others batch batches rest blocks left unlinked)
    (settled : ListSettled c (group :: others)) :
    (unlinked = none → ListSettled c rest) ∧
      (unlinked ≠ none → ListSettled c (dropEmptyGroup rest).1) := by
  have first := settled.settled group List.mem_cons_self
  have others_ : ∀ other ∈ others, other.Settled c :=
    fun other member => settled.settled other (List.mem_cons_of_mem _ member)
  have count := first.shaped.count
  have full := first.shaped.full
  have members := first.shaped.members
  have some_ := first.2
  rw [pops.front] at count full members some_
  obtain ⟨frontCount, count⟩ := List.forall_mem_cons.mp count
  obtain ⟨frontMembers, members⟩ := List.forall_mem_cons.mp members
  have rest_eq := pops.rest_eq
  have unlinked_eq := pops.unlinked_eq
  have sorted : Sorted rest := by
    apply settled.sorted.of_bases
    rw [rest_eq]
    split_ifs
    · rfl
    · rfl
  constructor
  · intro absent
    split_ifs at rest_eq unlinked_eq with empty
    · exact absurd (unlinked_eq.symm.trans absent) nofun
    · refine ⟨sorted, ?_⟩
      rw [rest_eq]
      refine List.forall_mem_cons.mpr ⟨⟨⟨first.shaped.max_eq, List.cons_ne_nil _ _, ?_, full, ?_⟩, ?_⟩,
        others_⟩
      · refine List.forall_mem_cons.mpr ⟨?_, count⟩
        have length := congrArg List.length pops.split
        rw [List.length_append] at length
        change left.length ≤ _
        change batch.batch.length ≤ _ at frontCount
        omega
      · refine List.forall_mem_cons.mpr ⟨?_, members⟩
        intro x member
        exact frontMembers x (by rw [pops.split]; exact List.mem_append_left _ member)
      · exact List.forall_mem_cons.mpr ⟨empty, (List.forall_mem_cons.mp some_).2⟩
  · intro present
    split_ifs at rest_eq unlinked_eq with empty
    · rw [rest_eq] at sorted ⊢
      simp only [dropEmptyGroup]
      split_ifs with last
      · exact ⟨(List.pairwise_cons.mp sorted).2, others_⟩
      · refine ⟨sorted, List.forall_mem_cons.mpr ⟨⟨⟨first.shaped.max_eq, last, count, ?_, members⟩, ?_⟩,
          others_⟩⟩
        · exact fun b member => full b (List.mem_of_mem_tail member)
        · exact (List.forall_mem_cons.mp some_).2
    · exact absurd unlinked_eq present

theorem ListSettled.nil : ListSettled c [] := ⟨List.Pairwise.nil, nofun⟩

theorem popFront_settled {I : Fin n} {maxBlockCount : Nat} {groups rest : List GroupNode}
    {blocks : List Nat} {unlinked : Option Nat} (other : I ≠ 0) (settled : ListSettled c groups)
    (pop : popFront I maxBlockCount groups = (rest, blocks, unlinked)) :
    (unlinked = none → ListSettled c rest) ∧
      (unlinked ≠ none → ListSettled c (dropEmptyGroup rest).1) ∧ blocks.length ≤ maxBlockCount := by
  cases groups with
  | nil =>
    obtain ⟨rfl, rfl, rfl⟩ := pop
    exact ⟨fun _ => ListSettled.nil, fun some_ => absurd rfl some_, Nat.zero_le _⟩
  | cons group others =>
    obtain ⟨batch, batches, left, pops, length⟩ :=
      popFront_cons (settled.batched group List.mem_cons_self) pop
    obtain ⟨kept, dropped⟩ := pops.settled settled
    rw [if_neg other] at length
    exact ⟨kept, dropped, length.trans_le (Nat.min_le_left _ _)⟩

theorem ListSettled.filter {groups : List GroupNode} (settled : ListSettled c groups)
    (p : GroupNode → Bool) : ListSettled c (groups.filter p) :=
  ⟨List.Pairwise.filter p settled.sorted,
    fun group member => settled.settled group (List.mem_of_mem_filter member)⟩

end Groups

end Scudo.Primary.Allocator64
