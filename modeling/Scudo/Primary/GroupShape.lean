import Scudo.Primary.BlockPlaces

/-!
The shape of the free lists in every state of every run, and what `mergeGroupsToReleaseBack` moves
while other threads go on.
-/

namespace Scudo.Primary.Allocator64
open Scudo.Lib.Guarded

/-- The group as page release reads it. -/
def GroupNode.toBatchGroup (group : GroupNode) : BatchGroup where
  compactPtrGroupBase := group.compactPtrGroupBase
  batches := group.batches.map BatchNode.toTransferBatch
  maxCachedPerBatch := group.maxCachedPerBatch

theorem card_recordedBy (batches : List BatchNode) :
    (recordedBy batches).card =
      ((batches.map BatchNode.toTransferBatch).flatMap TransferBatch.batch).length := by
  induction batches with
  | nil => rfl
  | cons batch rest ih =>
    rw [recordedBy_cons, Multiset.card_add, ih, List.map_cons, List.flatMap_cons, List.length_append]
    rfl

variable {n : Nat} [NeZero n]

section Shape

variable {c : BlockConfig n} {group : GroupNode} {groups : List GroupNode}

theorem GroupNode.Shaped.filled (shaped : group.Shaped c) : group.toBatchGroup.Filled := by
  refine ⟨fun empty => shaped.batched (List.map_eq_nil_iff.mp empty), ?_⟩
  change ∀ b ∈ (group.batches.map BatchNode.toTransferBatch).tail,
    b.getCount = group.maxCachedPerBatch
  intro b member
  rw [← List.map_tail] at member
  obtain ⟨batch, there, rfl⟩ := List.mem_map.mp member
  exact (shaped.full batch there).trans shaped.max_eq.symm

/-- The number of blocks that page release computes is the number that the group has. -/
theorem GroupNode.Shaped.numBlocks_eq (shaped : group.Shaped c) :
    group.toBatchGroup.numBlocks = (recordedBy group.batches).card := by
  rw [shaped.filled.numBlocks_eq, card_recordedBy]
  rfl

variable (c) in
/-- The groups ascend; a group has a batch, and no batch is empty or too large; only the first one may
not be full; a block is of its group. The number of blocks is what the number of batches and the first
one's count say. -/
structure ListShape (groups : List GroupNode) : Prop where
  sorted : groups.Pairwise fun g h => g.compactPtrGroupBase < h.compactPtrGroupBase
  batched : ∀ group ∈ groups, group.batches ≠ []
  batch : ∀ group ∈ groups, ∀ batch ∈ group.batches,
    batch.batch ≠ [] ∧ batch.getCount ≤ group.maxCachedPerBatch
  full : ∀ group ∈ groups, ∀ batch ∈ group.batches.tail, batch.getCount = group.maxCachedPerBatch
  belongs : ∀ group ∈ groups, ∀ batch ∈ group.batches, ∀ block ∈ batch.batch,
    c.compactPtrGroup block = group.compactPtrGroupBase
  numBlocks : ∀ group ∈ groups,
    group.toBatchGroup.numBlocks = (recordedBy group.batches).card

theorem ListSettled.shape (settled : ListSettled c groups) : ListShape c groups where
  sorted := settled.sorted
  batched group member := (settled.settled group member).shaped.batched
  batch := by
    intro group member batch there
    have own := settled.settled group member
    rw [own.shaped.max_eq]
    exact ⟨own.2 batch there, own.shaped.count batch there⟩
  full := by
    intro group member batch there
    have shaped := (settled.settled group member).shaped
    exact (shaped.full batch there).trans shaped.max_eq.symm
  belongs group member := (settled.settled group member).shaped.members
  numBlocks group member := (settled.settled group member).shaped.numBlocks_eq

end Shape

section Merge

variable {c : BlockConfig n} {I : Fin n} {groups : List GroupNode} {populating : Bool}
  {start later : Config (Locals n) (Resource (n := n)) Outside Unit}

/-- A thread holds the free list of a class, and is going to merge the groups that it has released. -/
structure MergeStarts (c : BlockConfig n) (I : Fin n) (groups : List GroupNode) (populating : Bool)
    (start : Config (Locals n) (Resource (n := n)) Outside Unit) : Prop where
  prog : start.prog = mergeLocked c I
  list : start.thread.held (.flLock I) = some ⟨groups, populating⟩
  settled : ListSettled c groups
  class_ : start.thread.own.releaseClass = I
  good : (discipline c).Good start.thread
  shared : ∀ l r, start.shared l = some r → (discipline c).settled l r
  allowed : ∀ l r, start.shared l = some r → InRegions c ((discipline c).guarded l r)

/-- What the merge has done at its end: the list has all blocks, and the nodes that it does not need
have gone to the batch class in arrays of one to eight. -/
structure MergeEnds (c : BlockConfig n) (I : Fin n) (groups : List GroupNode) (populating : Bool)
    (th th' : Worker n) : Prop where
  ends : ∃ groups' arrays, th'.held (.flLock I) = some ⟨groups', populating⟩ ∧ ListShape c groups' ∧
    recorded groups' = recorded groups + recorded th.own.groupsToRelease ∧
    nodes groups' + (arrays.flatten : Multiset Nat) = nodes groups + nodes th.own.groupsToRelease ∧
    th'.own.flushed = th.own.flushed ++ arrays ∧
    ∀ array ∈ arrays, array ≠ [] ∧ array.length ≤ maxUnusedSize
  released : th'.own.groupsToRelease = []
  hand : th'.own.hand = th.own.hand

theorem Merged.ends {th th' : Worker n} {groups' : List GroupNode} {arrays : List (List Nat)}
    (merged : Merged c I populating th.own.hand th th' groups' arrays)
    (moves : MovesAll groups th.own.groupsToRelease groups' [] arrays []) :
    MergeEnds c I groups populating th th' where
  ends := by
    have nodes_ := moves.nodes_
    rw [Multiset.coe_nil, add_zero, add_zero] at nodes_
    refine ⟨groups', arrays, ?_, merged.settled.shape, moves.blocks_, nodes_, merged.flushed, merged.sizes⟩
    rw [merged.held, Function.update_self]
  released := merged.released
  hand := merged.hand

theorem MergeStarts.stays (other : I ≠ 0) (starts : MergeStarts c I groups populating start) :
    Discipline.Stays (discipline c) (fun _ th' => MergeEnds c I groups populating start.thread th')
      start where
  safe := by
    rw [starts.prog]
    refine Discipline.Safe.mono (mergeLocked_safe other starts.list starts.settled starts.class_) ?_
    rintro _ th' - ⟨groups', arrays, merged, moves⟩
    exact merged.ends moves
  good := starts.good
  settled := starts.shared
  allowed := starts.allowed

/-- The array of eight never overflows, and at the end everything was moved. -/
theorem MergeStarts.runs (other : I ≠ 0) (starts : MergeStarts c I groups populating start)
    (runs : Discipline.Runs (discipline c) start later) :
    later.prog ≠ .fault ∧
      (later.prog = .done () → MergeEnds c I groups populating start.thread later.thread) := by
  obtain ⟨safe, good, -, -⟩ := (starts.stays other).runs runs
  constructor
  · intro fault
    rw [fault] at safe
    exact safe good
  · intro done_
    rw [done_] at safe
    exact safe good

end Merge

section Theorem

variable (c : BlockConfig n) {τ : Type} [Fintype τ] [DecidableEq τ]

/-- What a thread has when it has just taken the lock of the list that it merges its groups into. -/
def mergeStart (w : Caches n τ) (t : τ) (I : Fin n) (info : FreeListInfo) :
    Config (Locals n) (Resource (n := n)) Outside Unit :=
  ⟨Function.update w.shared (.flLock I) none, (w.thread t).put (.flLock I) (some info), mergeLocked c I⟩

omit [DecidableEq τ] in
variable {c} in
theorem Caches.Sound.mergeStarts {w : Caches n τ} (sound : w.Sound c) {t : τ} {I : Fin n}
    (other : I ≠ 0) (class_ : (w.thread t).own.releaseClass = I) {info : FreeListInfo}
    (free : w.shared (.flLock I) = some info) :
    MergeStarts c I info.blockList info.isPopulatingFreeList (mergeStart c w t I info) := by
  have settled := sound.settled (.flLock I) info free
  have allowed := (allowed_of_total sound.total).2
  refine ⟨rfl, Thread.put_held_self .., settled.2 other, class_, (sound.good t).put ?_ ?_,
    of_update_some sound.settled nofun, of_update_some allowed nofun⟩
  · rintro x ⟨⟩
    exact (discipline c).intact_of_settled (.flLock I) info settled
  · rintro x ⟨⟩
    exact allowed (.flLock I) info free

/-- In every state of every run the free lists of the classes other than the batch class have their
shape, and so have the groups that are being released. A merge moves every block and passes the unused
nodes to the batch class, whatever other threads do. -/
theorem batch_groups_keep_shape {w : Caches n τ} (reached : (caches c τ).Reachable w) {I : Fin n}
    (other : I ≠ 0) :
    (∀ info, w.shared (.flLock I) = some info → ListShape c info.blockList) ∧
    (∀ t, ListShape c (w.thread t).own.groupsToRelease) ∧
    (∀ t request, w.task t ≠ some (request, .fault)) ∧
    ∀ t info, (w.thread t).own.releaseClass = I → w.shared (.flLock I) = some info →
      ∀ later, Discipline.Runs (discipline c) (mergeStart c w t I info) later →
        later.prog ≠ .fault ∧
          (later.prog = .done () → MergeEnds c I info.blockList info.isPopulatingFreeList
            (mergeStart c w t I info).thread later.thread) := by
  have sound := reachable_sound reached
  refine ⟨?_, fun t => (sound.good t).own.released.shape, ?_, ?_⟩
  · intro info free
    exact ((sound.settled (.flLock I) info free).2 other).shape
  · intro t request fault
    have busy := sound.busy t
    rw [fault] at busy
    exact busy (sound.good t)
  · exact fun t info class_ free later runs => (sound.mergeStarts other class_ free).runs other runs

end Theorem

/-- The group of the first cache is out of the list, and the second one has made another. The two groups
of one block are merged to one of two blocks, and a batch and a group are given back. -/
theorem batch_groups_keep_shape_merged : ∃ (w : Caches 2 (Fin 2)) (info : FreeListInfo)
    (later : Config (Locals 2) (Resource (n := 2)) Outside Unit),
    info.blockList = [⟨24, 0, [⟨⟨[4]⟩, 16⟩], 2⟩] ∧ ListShape fewBlocks info.blockList ∧
      (w.thread 0).own.groupsToRelease = [⟨8, 0, [⟨⟨[0]⟩, 0⟩], 2⟩] ∧
      ListShape fewBlocks (w.thread 0).own.groupsToRelease ∧
      later.thread.held (.flLock 1) = some ⟨[⟨24, 0, [⟨⟨[4, 0]⟩, 16⟩], 2⟩], false⟩ ∧
      later.thread.own.flushed = [[8, 0]] ∧
      MergeEnds fewBlocks 1 info.blockList info.isPopulatingFreeList
        (mergeStart fewBlocks w 0 1 info).thread later.thread := by
  have reached := Caches.reachable_play twoGroups
    (.init freshCaches_initial : (caches fewBlocks (Fin 2)).Reachable freshCaches)
  obtain ⟨lists, released, -, merges⟩ :=
    batch_groups_keep_shape fewBlocks reached (show (1 : Fin 2) ≠ 0 by decide)
  have free : (freshCaches.play fewBlocks twoGroups).shared (.flLock 1) =
      some ⟨[⟨24, 0, [⟨⟨[4]⟩, 16⟩], 2⟩], false⟩ := by decide +kernel
  have alone := Discipline.Runs.alone (d := discipline fewBlocks)
    (mergeStart fewBlocks (freshCaches.play fewBlocks twoGroups) 0 1
      ⟨[⟨24, 0, [⟨⟨[4]⟩, 16⟩], 2⟩], false⟩) plain 20
  have ends := (merges 0 _ (by decide +kernel) free _ alone).2 (Prog.eq_done (by decide +kernel))
  exact ⟨_, _, _, rfl, lists _ free, by decide +kernel, released 0, by decide +kernel,
    by decide +kernel, ends⟩

end Scudo.Primary.Allocator64
