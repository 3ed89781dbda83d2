import Scudo.Primary.FreeListSafe

/-!
Pushing under the lock of a free list: every block goes from the hands of the thread to the group it
belongs to, the nodes that this takes come from the batch class, and the list is settled afterwards.
-/

namespace Scudo.Primary.Allocator64
open Scudo.Lib.Guarded

variable {n : Nat} [NeZero n]

section Insert

variable {c : BlockConfig n} {ops : BatchClass n} {I : Fin n} {th th' : Worker n}
  {before after : List GroupNode} {group : GroupNode} {populating : Bool} {rest : Places n}

/-- The group at `Cur` has room in its front batch. -/
structure HasRoom (c : BlockConfig n) (I : Fin n) (before : List GroupNode) (group : GroupNode)
    (after : List GroupNode) (populating : Bool) (th : Worker n) (slots : Nat) (th' : Worker n)
    (group' : GroupNode) (front : BatchNode) (batches : List BatchNode) : Prop where
  open_ : OpenAt c before group' after
  base : group'.compactPtrGroupBase = group.compactPtrGroupBase
  parts : group'.batches = front :: batches
  slots_eq : slots = group'.maxCachedPerBatch - front.getCount
  slots_pos : 0 < slots
  after : After I (before ++ group' :: after) populating th.own.hand th th'

theorem makeRoom_safe (safe : ops.Safe c) (other : I ≠ 0)
    (list : th.held (.flLock I) = some ⟨before ++ group :: after, populating⟩)
    (open_ : OpenAt c before group after) :
    (discipline c).Safe (makeRoom ops I before.length) (fun slots th' => ∃ group' front batches,
      HasRoom c I before group after populating th slots th' group' front batches) th := by
  obtain ⟨front, batches, parts⟩ := List.exists_cons_of_ne_nil open_.shaped.batched
  have slots : unusedSlots (before ++ group :: after) before.length =
      group.maxCachedPerBatch - front.getCount := unusedSlots_at parts
  unfold makeRoom
  refine onList_look list ?_
  intro th₁ first
  rw [slots]
  split_ifs with full
  · refine Discipline.Safe.bind (safe.getBatchClassBlock other th₁) ?_
    rintro tb th₂ - ⟨held₂, kept₂, hand₂⟩
    rw [first.hand] at hand₂
    have second := first.trans (Leaves.of_held first.there held₂ kept₂ hand₂)
    have pushed : OpenAt c before (group.pushFront tb) after :=
      open_.replace (open_.shaped.pushFront parts full tb) rfl
    have slots' : unusedSlots (before ++ group.pushFront tb :: after) before.length =
        group.maxCachedPerBatch := unusedSlots_at (rfl : (group.pushFront tb).batches = ⟨⟨[]⟩, tb⟩ :: _)
    obtain ⟨recorded_, nodes_⟩ :
        recorded (before ++ group.pushFront tb :: after) = recorded (before ++ group :: after) ∧
          nodes (before ++ group.pushFront tb :: after) = nodes (before ++ group :: after) + {tb} :=
      pushFrontBatch_moves tb
    refine onList_safe th.own.hand (before ++ group.pushFront tb :: after) group.maxCachedPerBatch
      second.there ?_ ?_ (fun zero => absurd zero other) ?_
    · simp only [pushFrontBatch, modify_at, slots', take_eq hand₂]
    · rw [listPlaces_other other, listPlaces_other other, recorded_, nodes_, hand₂,
        single_add _ _ {tb}]
      abel
    · intro th₃ third
      refine ⟨_, _, _, pushed, rfl, rfl, rfl, ?_, second.trans third⟩
      have positive := c.hint_ge
      rw [open_.shaped.max_eq]
      omega
  · apply Discipline.Safe.pure
    intro _
    exact ⟨group, front, batches, open_, rfl, parts, rfl, Nat.pos_of_ne_zero full, first⟩

/-- With as many rounds as there are blocks. -/
theorem insertBlocks_safe (safe : ops.Safe c) (other : I ≠ 0) (fuel : Nat) {array : List Nat}
    (enough : array.length ≤ fuel)
    (list : th.held (.flLock I) = some ⟨before ++ group :: after, populating⟩)
    (open_ : OpenAt c before group after) (one : OneGroup c group.compactPtrGroupBase array)
    (settled : array = [] → group.Settled c)
    (has : th.own.hand = rest + Pi.single I (array : Multiset Nat)) :
    (discipline c).Safe (insertBlocks ops I before.length fuel array) (fun _ th' => ∃ group',
      group'.compactPtrGroupBase = group.compactPtrGroupBase ∧
      ListSettled c (before ++ group' :: after) ∧
      After I (before ++ group' :: after) populating rest th th') th := by
  induction fuel generalizing array th group with
  | zero =>
    obtain rfl := List.length_eq_zero_iff.mp (Nat.le_zero.mp enough)
    unfold insertBlocks
    apply Discipline.Safe.pure
    intro _
    rw [Multiset.coe_nil, Pi.single_zero, add_zero] at has
    exact ⟨group, rfl, open_.settle (settled rfl), Leaves.refl list has⟩
  | succ fuel ih =>
    cases array with
    | nil =>
      unfold insertBlocks
      apply Discipline.Safe.pure
      intro _
      rw [Multiset.coe_nil, Pi.single_zero, add_zero] at has
      exact ⟨group, rfl, open_.settle (settled rfl), Leaves.refl list has⟩
    | cons block blocks =>
      unfold insertBlocks
      refine Discipline.Safe.bind (makeRoom_safe safe other list open_) ?_
      rintro slots th₁ - ⟨group₁, front, batches, room⟩
      obtain ⟨open₁, base₁, parts₁, slots_eq, slots_pos, first⟩ := room
      dsimp only
      generalize array_ : block :: blocks = array at *
      have length : 0 < array.length := by rw [← array_, List.length_cons]; exact Nat.succ_pos _
      generalize size : min slots array.length = appendSize
      have taken : (array.take appendSize).length = appendSize := by
        rw [List.length_take]
        omega
      have some_ : array.take appendSize ≠ [] := by
        intro empty
        rw [empty, List.length_nil] at taken
        omega
      have one₁ : OneGroup c group₁.compactPtrGroupBase (array.take appendSize) := by
        rw [base₁]
        exact fun x member => one x (List.mem_of_mem_take member)
      have appended : OpenAt c before (group₁.append (array.take appendSize)) after :=
        open₁.replace (open₁.shaped.append parts₁ (by omega) one₁) rfl
      obtain ⟨recorded_, nodes_⟩ : _ ∧ nodes (before ++ group₁.append (array.take appendSize) :: after) =
          nodes (before ++ group₁ :: after) := appendFromArray_moves _ open₁.shaped.batched
      have has₁ : th₁.own.hand = rest + Pi.single I (array.drop appendSize : Multiset Nat) +
          Pi.single I (array.take appendSize : Multiset Nat) := by
        rw [first.hand, has, add_assoc, ← single_add, Multiset.coe_add,
          Multiset.coe_eq_coe.mpr (List.perm_append_comm.trans
            (List.Perm.of_eq (List.take_append_drop appendSize array)))]
      refine onList_bind (rest + Pi.single I (array.drop appendSize : Multiset Nat))
        (before ++ group₁.append (array.take appendSize) :: after) () first.there ?_ ?_
        (fun zero => absurd zero other) ?_
      · simp only [appendFromArray, modify_at, take_eq has₁]
      · rw [listPlaces_other other, listPlaces_other other, recorded_, nodes_, has₁,
          single_add _ _ (array.take appendSize : Multiset Nat)]
        abel
      · intro th₂ second
        refine Discipline.Safe.mono (ih ?_ second.there appended ?_ ?_ second.hand) ?_
        · rw [List.length_drop]
          omega
        · change OneGroup c group₁.compactPtrGroupBase _
          rw [base₁]
          exact fun x member => one x (List.mem_of_mem_drop member)
        · exact fun _ => appended.shaped.settled_append some_
        · rintro _ th₃ - ⟨group', base', settled', third⟩
          exact ⟨group', base'.trans base₁, settled', (first.trans second).trans third⟩

end Insert

section Find

variable {c : BlockConfig n} {ops : BatchClass n} {I : Fin n} {th th' : Worker n}
  {before after : List GroupNode} {populating : Bool} {base : Nat}

/-- `Cur` is the group of the blocks that are pushed next. -/
structure Found (c : BlockConfig n) (I : Fin n) (populating : Bool) (base : Nat) (th : Worker n)
    (next : Nat) (th' : Worker n) (before : List GroupNode) (group : GroupNode)
    (after : List GroupNode) : Prop where
  length_eq : before.length = next
  base_eq : group.compactPtrGroupBase = base
  open_ : OpenAt c before group after
  after : After I (before ++ group :: after) populating th.own.hand th th'

theorem createGroup_safe (safe : ops.Safe c) (other : I ≠ 0)
    (list : th.held (.flLock I) = some ⟨before ++ after, populating⟩)
    (settled : ListSettled c (before ++ after))
    (below : ∀ group ∈ before, group.compactPtrGroupBase < base)
    (above : ∀ group ∈ after, base < group.compactPtrGroupBase) :
    (discipline c).Safe (do
      let bg ← ops.getBatchClassBlock
      let tb ← ops.getBatchClassBlock
      onList I fun own groups =>
        ((own.take 0 ({bg} + {tb}), createGroup c groups before.length base bg tb), ())
      return before.length) (fun next th' => ∃ before' group after',
        Found c I populating base th next th' before' group after') th := by
  refine Discipline.Safe.bind (safe.getBatchClassBlock other th) ?_
  rintro bg th₁ - ⟨held₁, kept₁, hand₁⟩
  have first := Leaves.of_held list held₁ kept₁ hand₁
  refine Discipline.Safe.bind (safe.getBatchClassBlock other th₁) ?_
  rintro tb th₂ - ⟨held₂, kept₂, hand₂⟩
  have second := first.trans (Leaves.of_held first.there held₂ kept₂ hand₂)
  have hand : th₂.own.hand = th.own.hand + Pi.single 0 ({bg} + {tb}) := by
    rw [hand₂, hand₁, single_add, add_assoc]
  obtain ⟨recorded_, nodes_⟩ : recorded (before ++ newGroup c base bg tb :: after) = _ ∧
      nodes (before ++ newGroup c base bg tb :: after) = _ := createGroup_moves c base bg tb
  refine onList_bind th.own.hand (before ++ newGroup c base bg tb :: after) () second.there ?_ ?_
    (fun zero => absurd zero other) ?_
  · simp only [createGroup_eq, take_eq hand]
  · rw [listPlaces_other other, listPlaces_other other, recorded_, nodes_, hand, add_assoc (nodes _),
      single_add _ (nodes _)]
    abel
  · intro th₃ third
    apply Discipline.Safe.pure
    intro _
    exact ⟨before, newGroup c base bg tb, after, rfl, rfl, createGroup_open bg tb settled below above,
      second.trans third⟩

theorem findGroup_safe (safe : ops.Safe c) (other : I ≠ 0) {prev : Bool}
    (list : th.held (.flLock I) = some ⟨before ++ after, populating⟩)
    (settled : ListSettled c (before ++ after))
    (below : ∀ group ∈ before, group.compactPtrGroupBase < base)
    (passes : prev = true → ∃ group ∈ before ++ after, group.compactPtrGroupBase < base) :
    (discipline c).Safe (findGroup c ops I prev before.length base) (fun next th' =>
      ∃ before' group after', Found c I populating base th next th' before' group after') th := by
  obtain ⟨passed, left, parts, length, below', above⟩ := advance_split settled.sorted below
  unfold findGroup
  refine onList_look list ?_
  intro th₁ first
  rw [← length]
  rw [parts] at settled first passes ⊢
  have some_ : prev = true → passed.length ≠ 0 := by
    intro true_ empty
    obtain ⟨group, member, less⟩ := passes true_
    rw [List.length_eq_zero_iff.mp empty, List.nil_append] at member
    exact absurd (above group member) (by omega)
  have at_ : (passed ++ left)[passed.length]? = left.head? := by
    rw [List.getElem?_append_right le_rfl, Nat.sub_self, List.head?_eq_getElem?]
  simp only [at_]
  split_ifs with found missing
  · apply Discipline.Safe.pure
    intro _
    cases left with
    | nil => exact absurd found (by simp)
    | cons group after' =>
      have same : group.compactPtrGroupBase = base := by simpa using found
      exact ⟨passed, group, after', rfl, same, settled.openAt, first⟩
  · simp only [Bool.and_eq_true, beq_iff_eq] at missing
    exact absurd missing.2 (some_ missing.1)
  · have strict : ∀ group ∈ left, base < group.compactPtrGroupBase := by
      cases left with
      | nil => exact nofun
      | cons group after' =>
        have unequal : group.compactPtrGroupBase ≠ base := by simpa using found
        have first_ : base < group.compactPtrGroupBase :=
          lt_of_le_of_ne (above group List.mem_cons_self) unequal.symm
        have ascending := (List.pairwise_cons.mp (List.pairwise_append.mp settled.sorted).2.1).1
        exact List.forall_mem_cons.mpr
          ⟨first_, fun group' member => first_.trans (ascending group' member)⟩
    refine Discipline.Safe.mono (createGroup_safe safe other first.there settled below' strict) ?_
    rintro next th₂ - ⟨before', group, after', found'⟩
    have hand := found'.after
    rw [first.hand] at hand
    exact ⟨before', group, after', found'.length_eq, found'.base_eq, found'.open_, first.trans hand⟩

end Find

section Push

variable {c : BlockConfig n} {ops : BatchClass n} {I : Fin n} {th : Worker n}
  {before after groups : List GroupNode} {group : GroupNode} {populating : Bool} {rest : Places n}

/-- The blocks were pushed. -/
def Pushed (c : BlockConfig n) (I : Fin n) (populating : Bool) (rest : Places n) (th : Worker n)
    (_ : Unit) (th' : Worker n) : Prop :=
  ∃ groups, Settled c I groups ∧ After I groups populating rest th th'

theorem Pushed.of_list {th' : Worker n} (other : I ≠ 0) (settled : ListSettled c groups)
    (after : After I groups populating rest th th') : Pushed c I populating rest th () th' :=
  ⟨groups, ⟨fun zero => absurd zero other, fun _ => settled⟩, after⟩

theorem pushSegments_safe (safe : ops.Safe c) (other : I ≠ 0) (segments : List (List Nat))
    (list : th.held (.flLock I) = some ⟨before ++ group :: after, populating⟩)
    (settled : ListSettled c (before ++ group :: after))
    (ascending : (group.compactPtrGroupBase :: segments.map (headGroup c)).IsChain (· < ·))
    (one : ∀ segment ∈ segments, OneGroup c (headGroup c segment) segment)
    (some_ : ∀ segment ∈ segments, segment ≠ [])
    (has : th.own.hand = rest + Pi.single I (segments.flatten : Multiset Nat)) :
    (discipline c).Safe (pushSegments c ops I before.length segments)
      (Pushed c I populating rest th) th := by
  induction segments generalizing before group after th with
  | nil =>
    unfold pushSegments
    apply Discipline.Safe.pure
    intro _
    rw [List.flatten_nil, Multiset.coe_nil, Pi.single_zero, add_zero] at has
    exact Pushed.of_list other settled (Leaves.refl list has)
  | cons segment segments ih =>
    obtain ⟨one_, ones⟩ := List.forall_mem_cons.mp one
    obtain ⟨segment_, others⟩ := List.forall_mem_cons.mp some_
    rw [List.map_cons, List.isChain_cons_cons] at ascending
    obtain ⟨greater, ascending⟩ := ascending
    have below : ∀ g ∈ before, g.compactPtrGroupBase < headGroup c segment := by
      intro g member
      have less := (List.pairwise_append.mp settled.sorted).2.2 g member group List.mem_cons_self
      exact less.trans greater
    unfold pushSegments
    refine Discipline.Safe.bind (findGroup_safe safe other list settled below
      fun _ => ⟨group, by simp, greater⟩) ?_
    rintro next th₁ - ⟨before₁, group₁, after₁, ⟨rfl, base₁, open₁, first⟩⟩
    have has₁ : th₁.own.hand = rest + Pi.single I (segments.flatten : Multiset Nat) +
        Pi.single I (segment : Multiset Nat) := by
      rw [first.hand, has, add_assoc, ← single_add, Multiset.coe_add, List.flatten_cons,
        Multiset.coe_eq_coe.mpr List.perm_append_comm]
    refine Discipline.Safe.bind (insertBlocks_safe safe other segment.length le_rfl first.there open₁
      (by rw [base₁]; exact one_) (fun empty => absurd empty segment_) has₁) ?_
    rintro _ th₂ - ⟨group₂, base₂, settled₂, second⟩
    refine Discipline.Safe.mono (ih second.there settled₂ ?_ ones others second.hand) ?_
    · rw [base₂, base₁]
      exact ascending
    · rintro _ th₃ - ⟨groups', settled', third⟩
      exact ⟨groups', settled', (first.trans second).trans third⟩

theorem segments_head {array segment : List Nat} {others : List (List Nat)}
    (parts : segments c array = segment :: others) : headGroup c segment = headGroup c array := by
  have some_ : segment ≠ [] :=
    (segments_oneGroup c (by rw [parts]; exact List.mem_cons_self : segment ∈ segments c array)).1
  obtain ⟨first, rest, rfl⟩ := List.exists_cons_of_ne_nil some_
  have flat := segments_flatten c array
  rw [parts] at flat
  rw [← flat]
  rfl

theorem pushBlocksImpl_safe (safe : ops.Safe c) (other : I ≠ 0) {array : List Nat} {same : Bool}
    (some_ : array ≠ []) (one : same = true → OneGroup c (headGroup c array) array)
    (sorted : same = false → SortedByGroup c array)
    (list : th.held (.flLock I) = some ⟨groups, populating⟩) (settled : ListSettled c groups)
    (has : th.own.hand = rest + Pi.single I (array : Multiset Nat)) :
    (discipline c).Safe (pushBlocksImpl c ops I array same) (Pushed c I populating rest th) th := by
  unfold pushBlocksImpl
  rw [if_neg some_]
  have list₀ : th.held (.flLock I) = some ⟨[] ++ groups, populating⟩ := list
  refine Discipline.Safe.bind (findGroup_safe safe other list₀ settled nofun nofun) ?_
  rintro next th₁ - ⟨before₁, group₁, after₁, ⟨rfl, base, open₁, first⟩⟩
  have base₁ : group₁.compactPtrGroupBase = headGroup c array := base
  cases same with
  | true =>
    rw [if_pos rfl]
    rw [← first.hand] at has
    refine Discipline.Safe.mono (insertBlocks_safe safe other array.length le_rfl first.there open₁
      (by rw [base₁]; exact one rfl) (fun empty => absurd empty some_) has) ?_
    rintro _ th₂ - ⟨group₂, -, settled₂, second⟩
    exact Pushed.of_list other settled₂ (first.trans second)
  | false =>
    rw [if_neg Bool.false_ne_true]
    have flat := segments_flatten c array
    have ascending := segments_ascending c (sorted rfl)
    have ones := fun segment (member : segment ∈ segments c array) => segments_oneGroup c member
    cases parts : segments c array with
    | nil =>
      rw [parts] at flat
      exact absurd flat.symm some_
    | cons segment others =>
      dsimp only
      have head := segments_head parts
      rw [parts] at flat ascending ones
      rw [List.map_cons, head, ← base₁] at ascending
      obtain ⟨⟨segment_, one_⟩, ones⟩ := List.forall_mem_cons.mp ones
      rw [head] at one_
      have has₁ : th₁.own.hand = rest + Pi.single I (others.flatten : Multiset Nat) +
          Pi.single I (segment : Multiset Nat) := by
        rw [first.hand, has, add_assoc, ← single_add, Multiset.coe_add, ← flat, List.flatten_cons,
          Multiset.coe_eq_coe.mpr List.perm_append_comm]
      refine Discipline.Safe.bind (insertBlocks_safe safe other segment.length le_rfl first.there open₁
        (by rw [base₁]; exact one_) (fun empty => absurd empty segment_) has₁) ?_
      rintro _ th₂ - ⟨group₂, base₂, settled₂, second⟩
      rw [← base₂] at ascending
      refine Discipline.Safe.mono (pushSegments_safe safe other others second.there settled₂ ascending
        (fun s member => (ones s member).2) (fun s member => (ones s member).1) second.hand) ?_
      rintro _ th₃ - ⟨groups', settled', third⟩
      exact ⟨groups', settled', (first.trans second).trans third⟩

theorem pushBatchClass_safe {array : List Nat} (some_ : array ≠ [])
    (list : th.held (.flLock 0) = some ⟨groups, populating⟩)
    (has : th.own.hand = rest + Pi.single 0 (array : Multiset Nat)) :
    (discipline c).Safe (pushBatchClass c array) (Pushed c 0 populating rest th) th := by
  apply Discipline.Safe.of_good
  intro good
  have intact : BatchClassIntact (batchClassMax c) groups := good.held (.flLock 0) _ list rfl
  have intact' := pushBatchClassBlocks_intact c array intact
  have moves := pushBatchClassBlocks_moves c array groups
  unfold pushBatchClass
  rw [if_neg some_]
  refine onList_safe rest (pushBatchClassBlocks c array groups) () list ?_ ?_ (fun _ => intact') ?_
  · simp only [take_eq has]
  · rw [listPlaces_zero, listPlaces_zero, moves, has, single_add _ _ (array : Multiset Nat)]
    abel
  · exact fun th' after => ⟨_, ⟨fun _ => intact', fun other => absurd rfl other⟩, after⟩

/-- The lock of a list is taken, which is settled then. -/
theorem acquire_list {α : Type} {k : Unit → Run n α} {post : α → Worker n → Prop}
    (next : th.held (.flLock I) = none → ∀ groups populating, Settled c I groups →
      (discipline c).Safe (k ()) post (th.put (.flLock I) (some ⟨groups, populating⟩))) :
    (discipline c).Safe (Prog.acquire (.flLock I) >>= k) post th :=
  fun _ waits info settled => next waits info.blockList info.isPopulatingFreeList settled

theorem release_list {α : Type} {k : Unit → Run n α} {post : α → Worker n → Prop}
    (list : th.held (.flLock I) = some ⟨groups, populating⟩) (settled : Settled c I groups)
    (next : (discipline c).Safe (k ()) post (th.put (.flLock I) none)) :
    (discipline c).Safe (Prog.release (.flLock I) >>= k) post th :=
  fun _ => ⟨_, list, settled, next⟩

omit [NeZero n] in
/-- A lock is taken, its resource is used, and the lock is given back. -/
theorem held_released {th' : Worker n} {l : Lock n} {r r' : Option (Resource l)}
    (waits : th.held l = none) (held : th'.held = Function.update (th.put l r).held l r') :
    (th'.put l none).held = th.held := by
  change Function.update th'.held l none = th.held
  rw [held]
  change Function.update (Function.update (Function.update th.held _ _) _ _) _ none = th.held
  rw [Function.update_idem, Function.update_idem, ← waits, Function.update_eq_self]

theorem Leaves.released {th' : Worker n} {l : Lock n} {r r' : Option (Resource l)} {hand : Places n}
    (waits : th.held l = none) (leaves : Leaves I l r' hand (th.put l r) th') :
    Returned I hand th (th'.put l none) :=
  ⟨held_released waits leaves.held, leaves.kept, leaves.hand⟩

theorem sameGroup_one {array array' : List Nat} (same : sameGroup c array = true)
    (perm : array'.Perm array) : OneGroup c (headGroup c array') array' := by
  intro x member
  cases array with
  | nil => exact absurd (perm.mem_iff.mp member) nofun
  | cons first rest =>
    have all : ∀ y ∈ array', c.compactPtrGroup y = c.compactPtrGroup first := by
      intro y there
      rcases List.mem_cons.mp (perm.mem_iff.mp there) with rfl | there
      · rfl
      · simpa using List.all_eq_true.mp same y there
    obtain ⟨head, tail, rfl⟩ := List.exists_cons_of_ne_nil (List.ne_nil_of_mem member)
    exact (all x member).trans (all head List.mem_cons_self).symm

/-- Where a region is one group, all its blocks are of that group. -/
theorem ungrouped_one {array : List Nat} (ungrouped : ¬c.groupSizeLog < c.regionSizeLog)
    (inRegion : ∀ x ∈ array, x ∈ unallocated c I 0) : OneGroup c (headGroup c array) array := by
  have zero : ∀ x ∈ array, c.compactPtrGroup x = 0 := by
    intro x member
    obtain ⟨k, -, lt, rfl⟩ := mem_unallocated.mp (inRegion x member)
    exact c.block_group lt ungrouped
  intro x member
  obtain ⟨first, rest, rfl⟩ := List.exists_cons_of_ne_nil (List.ne_nil_of_mem member)
  exact (zero x member).trans (zero first List.mem_cons_self).symm

theorem pushBlocks_safe (safe : I ≠ 0 → ops.Safe c) {array : List Nat} (some_ : array ≠ [])
    (has : th.own.hand = rest + Pi.single I (array : Multiset Nat)) :
    (discipline c).Safe (pushBlocks c ops I array) (fun _ th' => Returned I rest th th') th := by
  unfold pushBlocks
  split_ifs with batchClass
  · subst batchClass
    refine acquire_list fun waits groups populating settled => ?_
    refine Discipline.Safe.bind (pushBatchClass_safe some_ (Thread.put_held_self ..) has) ?_
    rintro _ th₁ - ⟨groups', settled', after⟩
    exact Discipline.Safe.release after.there settled' (after.released waits)
  · have sorted_ := sortByGroup_sorted c array
    have perm := sortByGroup_perm c array
    generalize sorts : decide (c.groupSizeLog < c.regionSizeLog) = grouped
    refine Discipline.Safe.of_good fun good => ?_
    have inRegion : ∀ x ∈ array, x ∈ unallocated c I 0 := by
      intro x member
      apply good_hand good I
      rw [has, Pi.add_apply, Pi.single_eq_same]
      exact Multiset.mem_add.mpr (Or.inr member)
    refine acquire_list fun waits groups populating settled => ?_
    have push : (discipline c).Safe (pushBlocksImpl c ops I
        (if grouped then sortByGroup c array else array) (if grouped then sameGroup c array else true))
        (Pushed c I populating rest (th.put (.flLock I) (some ⟨groups, populating⟩)))
        (th.put (.flLock I) (some ⟨groups, populating⟩)) := by
      have list := Thread.put_held_self th (.flLock I) (some ⟨groups, populating⟩)
      cases grouped with
      | true =>
        have has' : th.own.hand = rest + Pi.single I (sortByGroup c array : Multiset Nat) := by
          rw [has, Multiset.coe_eq_coe.mpr perm]
        exact pushBlocksImpl_safe (safe batchClass) batchClass
          (fun empty => some_ (perm.symm.trans (.of_eq empty)).eq_nil)
          (fun same => sameGroup_one same perm) (fun _ => sorted_) list (settled.2 batchClass) has'
      | false =>
        exact pushBlocksImpl_safe (safe batchClass) batchClass some_
          (fun _ => ungrouped_one (of_decide_eq_false sorts) inRegion) nofun list
          (settled.2 batchClass) has
    refine Discipline.Safe.bind push ?_
    rintro _ th₁ - ⟨groups', settled', after⟩
    exact Discipline.Safe.release after.there settled' (after.released waits)

end Push

end Scudo.Primary.Allocator64
