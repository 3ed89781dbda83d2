import Scudo.Primary.FreeListShape

/-!
`mergeGroupsToReleaseBack`: what a round of its loop moves, and that the list stays settled.
-/

namespace Scudo.Primary.Allocator64

theorem mergeBatches_moves (max : Nat) (batches cur : List BatchNode) :
    recordedBy (mergeBatches max batches cur).1 = recordedBy batches + recordedBy cur ∧
      batchNodes (mergeBatches max batches cur).1 + ofNode (mergeBatches max batches cur).2 =
        batchNodes batches + batchNodes cur := by
  cases cur with
  | nil => simp [mergeBatches]
  | cons nonFullBatch others =>
    simp only [mergeBatches]
    split_ifs with whole
    · simp
    · have recorded_ : recordedBy batches + recordedBy others = recordedBy (batches ++ others) := by simp
      have nodes_ : batchNodes batches + batchNodes others = batchNodes (batches ++ others) := by simp
      cases appended : batches ++ others with
      | nil =>
        obtain ⟨rfl, rfl⟩ := List.append_eq_nil_iff.mp appended
        simp
      | cons front rest =>
        rw [appended] at recorded_ nodes_
        have goalRecorded : recordedBy batches + recordedBy (nonFullBatch :: others) =
            nonFullBatch.blocks + recordedBy (front :: rest) := by
          rw [recordedBy_cons, ← recorded_]
          abel
        have goalNodes : batchNodes batches + batchNodes (nonFullBatch :: others) =
            {nonFullBatch.addr} + batchNodes (front :: rest) := by
          rw [batchNodes_cons, ← nodes_]
          abel
        rw [goalRecorded, goalNodes]
        dsimp only
        generalize min (max - front.getCount) nonFullBatch.getCount = numBlocksToMove
        have parts : (nonFullBatch.batch : Multiset Nat) =
            nonFullBatch.batch.take (nonFullBatch.getCount - numBlocksToMove) +
              nonFullBatch.batch.drop (nonFullBatch.getCount - numBlocksToMove) := by
          rw [Multiset.coe_add, List.take_append_drop]
        split_ifs with full empty
        · simp
        · rw [empty] at parts
          simp only [recordedBy_cons, batchNodes_cons, BatchNode.blocks, BatchNode.append, parts,
            ← Multiset.coe_add, Multiset.coe_nil, ofNode_some]
          exact ⟨by abel, by abel⟩
        · simp only [recordedBy_cons, batchNodes_cons, BatchNode.blocks, BatchNode.append, parts,
            ← Multiset.coe_add, ofNode_none, add_zero, and_true]
          abel

section Shape

variable {n : Nat} [NeZero n] {c : BlockConfig n}

/-- A batch that is full of blocks of a group. -/
def BatchNode.FullOf (c : BlockConfig n) (base : Nat) (batch : BatchNode) : Prop :=
  batch.getCount = c.maxNumCachedHint ∧ OneGroup c base batch.batch

/-- A front batch of a group, which is not empty. -/
structure BatchNode.FrontOf (c : BlockConfig n) (base : Nat) (batch : BatchNode) : Prop where
  count : batch.getCount ≤ c.maxNumCachedHint
  some_ : batch.batch ≠ []
  members : OneGroup c base batch.batch

theorem BatchNode.FullOf.front {base : Nat} {batch : BatchNode} (full : batch.FullOf c base) :
    batch.FrontOf c base := by
  refine ⟨full.1.le, ?_, full.2⟩
  intro empty
  have count : batch.batch.length = c.maxNumCachedHint := full.1
  have positive := c.hint_ge
  rw [empty, List.length_nil] at count
  omega

theorem GroupNode.settled_iff {group : GroupNode} :
    group.Settled c ↔ group.maxCachedPerBatch = c.maxNumCachedHint ∧
      ∃ front rest, group.batches = front :: rest ∧ front.FrontOf c group.compactPtrGroupBase ∧
        ∀ batch ∈ rest, batch.FullOf c group.compactPtrGroupBase := by
  constructor
  · rintro ⟨shaped, some_⟩
    obtain ⟨front, rest, parts⟩ := List.exists_cons_of_ne_nil shaped.batched
    have count := shaped.count
    have full := shaped.full
    have members := shaped.members
    rw [parts] at count full members some_
    have first : front ∈ front :: rest := List.mem_cons_self
    refine ⟨shaped.max_eq, front, rest, parts,
      ⟨count front first, some_ front first, members front first⟩, ?_⟩
    exact fun batch member => ⟨full batch member, members batch (List.mem_cons_of_mem _ member)⟩
  · rintro ⟨max_eq, front, rest, parts, first, full⟩
    refine ⟨⟨max_eq, ?_, ?_, ?_, ?_⟩, ?_⟩
    · rw [parts]
      exact List.cons_ne_nil _ _
    · rw [parts]
      exact List.forall_mem_cons.mpr ⟨first.count, fun b member => (full b member).1.le⟩
    · rw [parts]
      exact fun b member => (full b member).1
    · rw [parts]
      exact List.forall_mem_cons.mpr ⟨first.members, fun b member => (full b member).2⟩
    · rw [parts]
      exact List.forall_mem_cons.mpr ⟨first.some_, fun b member => (full b member).front.some_⟩

/-- Two groups of one base make one. -/
theorem mergeBatches_settled {group cur : GroupNode} (settled : group.Settled c)
    (other : cur.Settled c) (same : cur.compactPtrGroupBase = group.compactPtrGroupBase) :
    GroupNode.Settled c { group with
      batches := (mergeBatches group.maxCachedPerBatch group.batches cur.batches).1 } := by
  obtain ⟨max_eq, front, rest, parts, first, full⟩ := GroupNode.settled_iff.mp settled
  obtain ⟨-, nonFullBatch, others, parts', first', full'⟩ := GroupNode.settled_iff.mp other
  rw [same] at first' full'
  have behind : ∀ batch ∈ rest ++ others, batch.FullOf c group.compactPtrGroupBase := by
    intro batch member
    rcases List.mem_append.mp member with member | member
    · exact full batch member
    · exact full' batch member
  -- What the front batch has once the other group's first batch has filled it up.
  have filled : ∀ blocks : List Nat, (∀ x ∈ blocks, x ∈ nonFullBatch.batch) →
      front.getCount + blocks.length ≤ c.maxNumCachedHint →
      (front.append blocks).FrontOf c group.compactPtrGroupBase := by
    intro blocks there fits
    refine ⟨?_, List.append_ne_nil_of_left_ne_nil first.some_ _, ?_⟩
    · change (front.batch ++ blocks).length ≤ _
      rw [List.length_append]
      exact fits
    · intro x member
      rcases List.mem_append.mp member with member | member
      · exact first.members x member
      · exact first'.members x (there x member)
  rw [GroupNode.settled_iff]
  refine ⟨max_eq, ?_⟩
  dsimp only
  rw [max_eq, parts, parts']
  simp only [mergeBatches, List.cons_append]
  split_ifs with whole already empty
  · refine ⟨_, _, rfl, first, ?_⟩
    intro batch member
    rcases List.mem_append.mp member with member | member
    · exact full batch member
    · rcases List.mem_cons.mp member with rfl | member
      · exact ⟨whole, first'.members⟩
      · exact full' batch member
  · exact ⟨_, _, rfl, first', List.forall_mem_cons.mpr ⟨⟨already, first.members⟩, behind⟩⟩
  · refine ⟨_, _, rfl, filled _ (fun x => List.mem_of_mem_drop) ?_, behind⟩
    have count := first.count
    have frontCount : front.getCount = front.batch.length := rfl
    rw [List.length_drop]
    change _ + (nonFullBatch.getCount - _) ≤ _
    omega
  · have count := first.count
    have moved : (nonFullBatch.batch.drop (nonFullBatch.getCount -
        min (c.maxNumCachedHint - front.getCount) nonFullBatch.getCount)).length =
          c.maxNumCachedHint - front.getCount := by
      have left : 0 < (nonFullBatch.batch.take (nonFullBatch.getCount -
          min (c.maxNumCachedHint - front.getCount) nonFullBatch.getCount)).length :=
        List.length_pos_iff.mpr empty
      rw [List.length_take] at left
      rw [List.length_drop]
      change nonFullBatch.getCount - _ = _
      omega
    have whole : (front.append _).FrontOf c group.compactPtrGroupBase :=
      filled (nonFullBatch.batch.drop (nonFullBatch.getCount -
        min (c.maxNumCachedHint - front.getCount) nonFullBatch.getCount))
        (fun x => List.mem_of_mem_drop) (by omega)
    refine ⟨_, _, rfl, ⟨?_, empty, ?_⟩, List.forall_mem_cons.mpr ⟨⟨?_, whole.members⟩, behind⟩⟩
    · have bound := first'.count
      change (nonFullBatch.batch.take _).length ≤ _
      rw [List.length_take]
      change min _ nonFullBatch.getCount ≤ _
      omega
    · exact fun x member => first'.members x (List.mem_of_mem_take member)
    · change (front.batch ++ _).length = _
      rw [List.length_append, moved]
      change front.getCount + _ = _
      omega

end Shape

section Round

variable {n : Nat} [NeZero n] {c : BlockConfig n} {passed rest released after groups : List GroupNode}
  {bg front : GroupNode}

/-- Where the loop of `mergeGroupsToReleaseBack` is: the groups that were passed are below those that
are left. -/
structure Merging (c : BlockConfig n) (passed rest released : List GroupNode) : Prop where
  list : ListSettled c (passed ++ rest)
  left : ListSettled c released
  below : ∀ group ∈ passed, ∀ other ∈ released,
    group.compactPtrGroupBase < other.compactPtrGroupBase

theorem mergeRound_end : mergeRound passed passed.length released =
    ⟨passed ++ released, none, [], []⟩ := by
  unfold mergeRound
  rw [List.getElem?_eq_none le_rfl]

theorem mergeRound_nil : mergeRound (passed ++ bg :: after) passed.length [] =
    ⟨passed ++ bg :: after, none, [], []⟩ := by
  unfold mergeRound
  rw [List.getElem?_append_right le_rfl, Nat.sub_self, List.getElem?_cons_zero]

theorem mergeRound_cons : mergeRound (passed ++ bg :: after) passed.length (front :: groups) =
    if bg.compactPtrGroupBase < front.compactPtrGroupBase then
      ⟨passed ++ bg :: after, some (passed.length + 1), front :: groups, []⟩
    else if bg.compactPtrGroupBase = front.compactPtrGroupBase then
      let merged := mergeBatches bg.maxCachedPerBatch bg.batches front.batches
      ⟨passed ++ { bg with batches := merged.1 } :: after, some (passed.length + 1), groups,
        front.addr :: merged.2.toList⟩
    else ⟨passed ++ front :: bg :: after, some (passed.length + 1), groups, []⟩ := by
  unfold mergeRound
  rw [List.getElem?_append_right le_rfl, Nat.sub_self, List.getElem?_cons_zero]
  dsimp only
  rw [modify_at, insertIdx_at]

/-- What a round records and lives in is what it found, apart from the nodes that it gives back. -/
theorem mergeRound_moves :
    recorded (mergeRound (passed ++ rest) passed.length released).blockList +
        recorded (mergeRound (passed ++ rest) passed.length released).groupsToRelease =
      recorded (passed ++ rest) + recorded released ∧
    nodes (mergeRound (passed ++ rest) passed.length released).blockList +
        nodes (mergeRound (passed ++ rest) passed.length released).groupsToRelease +
        ((mergeRound (passed ++ rest) passed.length released).unused : Multiset Nat) =
      nodes (passed ++ rest) + nodes released := by
  cases rest with
  | nil =>
    rw [List.append_nil, mergeRound_end]
    simp
  | cons bg after =>
    cases released with
    | nil =>
      rw [mergeRound_nil]
      simp
    | cons front groups =>
      rw [mergeRound_cons]
      split_ifs with below same
      · simp
      · obtain ⟨recorded_, nodes_⟩ :=
          mergeBatches_moves bg.maxCachedPerBatch bg.batches front.batches
        generalize mergeBatches bg.maxCachedPerBatch bg.batches front.batches = merged
          at recorded_ nodes_
        have unused : ((front.addr :: merged.2.toList : List Nat) : Multiset Nat) =
            {front.addr} + ofNode merged.2 := by
          cases merged.2 <;> rfl
        rw [unused]
        simp only [recorded_append, recorded_cons, nodes_append, nodes_cons, GroupNode.nodes,
          recorded_]
        refine ⟨by abel, ?_⟩
        calc nodes passed + ({bg.addr} + batchNodes merged.1 + nodes after) + nodes groups +
              ({front.addr} + ofNode merged.2)
            = nodes passed + ({bg.addr} + nodes after) + nodes groups + {front.addr} +
                (batchNodes merged.1 + ofNode merged.2) := by abel
          _ = nodes passed + ({bg.addr} + batchNodes bg.batches + nodes after) +
                ({front.addr} + batchNodes front.batches + nodes groups) := by
              rw [nodes_]
              abel
      · simp only [recorded_append, recorded_cons, nodes_append, nodes_cons, Multiset.coe_nil,
          add_zero]
        exact ⟨by abel, by abel⟩

/-- A round passes a group, or is the last one. -/
theorem mergeRound_settled (merging : Merging c passed rest released) :
    ((mergeRound (passed ++ rest) passed.length released).next = none ∧
      (mergeRound (passed ++ rest) passed.length released).groupsToRelease = [] ∧
      (mergeRound (passed ++ rest) passed.length released).unused = [] ∧
      ListSettled c (mergeRound (passed ++ rest) passed.length released).blockList) ∨
    ∃ passed' rest',
      (mergeRound (passed ++ rest) passed.length released).next = some passed'.length ∧
      (mergeRound (passed ++ rest) passed.length released).blockList = passed' ++ rest' ∧
      Merging c passed' rest'
        (mergeRound (passed ++ rest) passed.length released).groupsToRelease ∧
      rest'.length +
          (mergeRound (passed ++ rest) passed.length released).groupsToRelease.length <
        rest.length + released.length ∧
      (mergeRound (passed ++ rest) passed.length released).unused.length ≤ 2 := by
  obtain ⟨list, settled, below⟩ := merging
  cases rest with
  | nil =>
    rw [List.append_nil] at list ⊢
    rw [mergeRound_end]
    refine Or.inl ⟨rfl, rfl, rfl, List.pairwise_append.mpr ⟨list.sorted, settled.sorted, below⟩, ?_⟩
    intro group member
    rcases List.mem_append.mp member with member | member
    · exact list.settled group member
    · exact settled.settled group member
  | cons bg after =>
    cases released with
    | nil =>
      rw [mergeRound_nil]
      exact Or.inl ⟨rfl, rfl, rfl, list⟩
    | cons front groups =>
      right
      have sorted := list.sorted
      have sorted' := settled.sorted
      have bases : ∀ group : GroupNode, group.compactPtrGroupBase = bg.compactPtrGroupBase →
          Sorted (passed ++ group :: after) := by
        intro group same
        exact sorted.of_bases (by simp [same])
      have others : ∀ group ∈ passed ++ after, group.Settled c := by
        intro group member
        apply list.settled
        rcases List.mem_append.mp member with member | member
        · exact List.mem_append_left _ member
        · exact List.mem_append_right _ (List.mem_cons_of_mem _ member)
      have own := list.settled bg (by simp)
      have first := settled.settled front List.mem_cons_self
      have left : ListSettled c groups :=
        ⟨(List.pairwise_cons.mp sorted').2,
          fun group member => settled.settled group (List.mem_cons_of_mem _ member)⟩
      rw [mergeRound_cons]
      split_ifs with less same
      · refine ⟨passed ++ [bg], after, by simp, by simp, ⟨by simpa using list, settled, ?_⟩,
          by simp, by simp⟩
        intro group member other there
        rcases List.mem_append.mp member with member | member
        · exact below group member other there
        · rw [List.mem_singleton.mp member]
          rcases List.mem_cons.mp there with rfl | there
          · exact less
          · exact less.trans ((List.pairwise_cons.mp sorted').1 other there)
      · refine ⟨passed ++ [{ bg with batches := (mergeBatches bg.maxCachedPerBatch bg.batches
          front.batches).1 }], after, by simp, by simp, ⟨?_, left, ?_⟩, by simp; omega, ?_⟩
        · rw [List.append_assoc]
          refine ⟨bases _ rfl, ?_⟩
          intro group member
          simp only [List.mem_append, List.singleton_append, List.mem_cons] at member others
          rcases member with member | rfl | member
          · exact others group (Or.inl member)
          · exact mergeBatches_settled own first same.symm
          · exact others group (Or.inr member)
        · intro group member other there
          rcases List.mem_append.mp member with member | member
          · exact below group member other (List.mem_cons_of_mem _ there)
          · rw [List.mem_singleton.mp member]
            exact same ▸ (List.pairwise_cons.mp sorted').1 other there
        · dsimp only
          cases (mergeBatches bg.maxCachedPerBatch bg.batches front.batches).2 <;> simp
      · have greater : front.compactPtrGroupBase < bg.compactPtrGroupBase := by omega
        refine ⟨passed ++ [front], bg :: after, by simp, by simp, ⟨?_, left, ?_⟩, by simp,
          by simp⟩
        · rw [List.append_assoc]
          obtain ⟨ofPassed, ofRest, across⟩ := List.pairwise_append.mp sorted
          refine ⟨List.pairwise_append.mpr ⟨ofPassed, List.pairwise_cons.mpr ⟨?_, ofRest⟩, ?_⟩, ?_⟩
          · intro group member
            rcases List.mem_cons.mp member with rfl | member
            · exact greater
            · exact greater.trans ((List.pairwise_cons.mp ofRest).1 group member)
          · intro group member other there
            rcases List.mem_cons.mp there with rfl | there
            · exact below group member _ List.mem_cons_self
            · exact across group member other there
          · intro group member
            simp only [List.mem_append, List.singleton_append, List.mem_cons] at member others
            rcases member with member | rfl | rfl | member
            · exact others group (Or.inl member)
            · exact first
            · exact own
            · exact others group (Or.inr member)
        · intro group member other there
          rcases List.mem_append.mp member with member | member
          · exact below group member other (List.mem_cons_of_mem _ there)
          · rw [List.mem_singleton.mp member]
            exact (List.pairwise_cons.mp sorted').1 other there

end Round

end Scudo.Primary.Allocator64
