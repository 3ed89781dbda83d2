import Scudo.Locking.Order

/-!
The locks of the 64-bit primary: those of the programs of `SizeClassAllocatorLocalCache`, and of the
operations on all regions.
-/

namespace Scudo.Locking
open Scudo.Lib Primary Allocator64 AllocatorLock

variable {n t : Nat} [NeZero n]

instance : Nonempty (Outside × Locals n) :=
  ⟨⟨true, id, fun _ => List.Perm.refl _, fun _ => true, 0⟩, ⟨fun _ => [], [], 0, 0, []⟩⟩

instance (lock : Primary.Allocator64.Lock n) : Nonempty (Resource lock) := by
  cases lock with
  | flLock I => exact ⟨(⟨[], false⟩ : FreeListInfo)⟩
  | mmLock I => exact ⟨(⟨false, 0, 0, false, 0⟩ : MemMapInfo)⟩

/-- The locks that a program of the primary takes. -/
abbrev locks {β : Type} (prog : Run n β) : LockPlan n t β := Plan.ofProg region prog

/-- The calls of the batch class, where a greater class holds its locks. -/
structure Served (t : Nat) (ops : BatchClass n) : Prop where
  getBatchClassBlock : ∀ held, Below held (mmLock 0) →
    (locks (t := t) ops.getBatchClassBlock).Keeps held
  deallocate : ∀ held, Below held (mmLock 0) → ∀ node,
    (locks (t := t) (ops.deallocate node)).Keeps held

section Programs

variable (c : BlockConfig n) {ops : BatchClass n} {I : Fin n} {held : List (AllocatorLock n t)}

theorem onList_keeps {β : Type} {f : Locals n → List GroupNode → (Locals n × List GroupNode) × β}
    (inside : flLock I ∈ held) : (locks (t := t) (onList I f)).Keeps held :=
  Plan.Keeps.prog_under _ inside

theorem onPages_keeps {β : Type} {f : Outside → MemMapInfo → MemMapInfo × β}
    (inside : mmLock I ∈ held) : (locks (t := t) (onPages I f)).Keeps held :=
  Plan.Keeps.prog_under _ inside

theorem deallocateNode_keeps (served : Served t ops) (below : Below held (mmLock 0))
    (node : Option Nat) : (locks (t := t) (deallocateNode ops node)).Keeps held := by
  cases node with
  | none => exact Plan.Keeps.prog_pure ()
  | some block => exact served.deallocate held below block

theorem popBlocksImpl_keeps (served : I ≠ 0 → Served t ops) (below : I ≠ 0 → Below held (mmLock 0))
    (inside : flLock I ∈ held) (maxBlockCount : Nat) :
    (locks (t := t) (popBlocksImpl ops I maxBlockCount)).Keeps held := by
  unfold popBlocksImpl
  split_ifs with batch
  · subst batch
    exact onList_keeps inside
  · refine Plan.Keeps.prog_bind (onList_keeps inside) ?_
    rintro ⟨blocks, unlinked⟩
    dsimp only
    split_ifs with empty
    · refine Plan.Keeps.prog_bind (deallocateNode_keeps (served batch) (below batch) unlinked) fun _ => ?_
      refine Plan.Keeps.prog_bind (onList_keeps inside) fun group => ?_
      refine Plan.Keeps.prog_bind (deallocateNode_keeps (served batch) (below batch) group) fun _ => ?_
      exact Plan.Keeps.prog_pure blocks
    · exact Plan.Keeps.prog_pure blocks

theorem makeRoom_keeps (served : Served t ops) (below : Below held (mmLock 0))
    (inside : flLock I ∈ held) (cur : Nat) : (locks (t := t) (makeRoom ops I cur)).Keeps held := by
  refine Plan.Keeps.prog_bind (onList_keeps inside) fun slots => ?_
  dsimp only
  split_ifs
  · exact Plan.Keeps.prog_bind (served.getBatchClassBlock held below) fun tb => onList_keeps inside
  · exact Plan.Keeps.prog_pure slots

theorem insertBlocks_keeps (served : Served t ops) (below : Below held (mmLock 0))
    (inside : flLock I ∈ held) (cur fuel : Nat) (array : List Nat) :
    (locks (t := t) (insertBlocks ops I cur fuel array)).Keeps held := by
  induction fuel generalizing array with
  | zero =>
    cases array with
    | nil => exact Plan.Keeps.prog_pure ()
    | cons block rest => exact trivial
  | succ fuel ih =>
    cases array with
    | nil => exact Plan.Keeps.prog_pure ()
    | cons block rest =>
      refine Plan.Keeps.prog_bind (makeRoom_keeps served below inside cur) fun slots => ?_
      exact Plan.Keeps.prog_bind (onList_keeps inside) fun _ => ih _

theorem findGroup_keeps (served : Served t ops) (below : Below held (mmLock 0))
    (inside : flLock I ∈ held) (prev : Bool) (cur base : Nat) :
    (locks (t := t) (findGroup c ops I prev cur base)).Keeps held := by
  refine Plan.Keeps.prog_bind (onList_keeps inside) ?_
  rintro ⟨next, found⟩
  dsimp only
  split_ifs
  · exact Plan.Keeps.prog_pure next
  · exact trivial
  · refine Plan.Keeps.prog_bind (served.getBatchClassBlock held below) fun bg => ?_
    refine Plan.Keeps.prog_bind (served.getBatchClassBlock held below) fun tb => ?_
    exact Plan.Keeps.prog_bind (onList_keeps inside) fun _ => Plan.Keeps.prog_pure next

theorem pushSegments_keeps (served : Served t ops) (below : Below held (mmLock 0))
    (inside : flLock I ∈ held) (cur : Nat) (segments : List (List Nat)) :
    (locks (t := t) (pushSegments c ops I cur segments)).Keeps held := by
  induction segments generalizing cur with
  | nil => exact Plan.Keeps.prog_pure ()
  | cons segment rest ih =>
    refine Plan.Keeps.prog_bind (findGroup_keeps c served below inside true cur _) fun next => ?_
    refine Plan.Keeps.prog_bind (insertBlocks_keeps served below inside next _ segment) fun _ => ?_
    exact ih next

theorem pushBlocksImpl_keeps (served : Served t ops) (below : Below held (mmLock 0))
    (inside : flLock I ∈ held) (array : List Nat) (same : Bool) :
    (locks (t := t) (pushBlocksImpl c ops I array same)).Keeps held := by
  unfold pushBlocksImpl
  split_ifs
  · exact trivial
  · refine Plan.Keeps.prog_bind (findGroup_keeps c served below inside false 0 _) fun cur => ?_
    exact insertBlocks_keeps served below inside cur _ array
  · refine Plan.Keeps.prog_bind (findGroup_keeps c served below inside false 0 _) fun cur => ?_
    cases segments c array with
    | nil => exact trivial
    | cons segment rest =>
      refine Plan.Keeps.prog_bind (insertBlocks_keeps served below inside cur _ segment) fun _ => ?_
      exact pushSegments_keeps c served below inside cur rest

theorem pushBatchClass_keeps (inside : flLock 0 ∈ held) (array : List Nat) :
    (locks (t := t) (pushBatchClass c array)).Keeps held := by
  unfold pushBatchClass
  split_ifs
  · exact trivial
  · exact onList_keeps inside

omit [NeZero n] in
/-- A thread that holds locks below a region's may take both of them, and then those of the batch
class. -/
theorem below_flLock (below : Below held (mmLock I)) : Below held (flLock I) :=
  below.mono (by rw [lt_iff]; simp only [rank]; omega)

omit [NeZero n] in
theorem below_flLock_cons (below : Below held (mmLock I)) : Below (mmLock I :: held) (flLock I) :=
  below.cons (by rw [lt_iff]; simp only [rank]; omega)

theorem mmLock_lt_batch {I : Fin n} (other : I ≠ 0) : (mmLock I : AllocatorLock n t) < mmLock 0 := by
  have positive : 0 < I.val := Nat.pos_of_ne_zero fun zero => other (Fin.ext zero)
  have bound := I.isLt
  rw [lt_iff]
  simp only [rank, Fin.val_zero]
  omega

theorem flLock_lt_batch {I : Fin n} (other : I ≠ 0) : (flLock I : AllocatorLock n t) < mmLock 0 := by
  have positive : 0 < I.val := Nat.pos_of_ne_zero fun zero => other (Fin.ext zero)
  have bound := I.isLt
  rw [lt_iff]
  simp only [rank, Fin.val_zero]
  omega

theorem below_batch (below : Below held (mmLock I)) (other : I ≠ 0) :
    Below (flLock I :: held) (mmLock 0) :=
  (below.mono (mmLock_lt_batch other)).push (flLock_lt_batch other)

theorem below_batch_both (below : Below held (mmLock I)) (other : I ≠ 0) :
    Below (flLock I :: mmLock I :: held) (mmLock 0) :=
  (below.cons (mmLock_lt_batch other)).push (flLock_lt_batch other)

theorem pushBlocks_keeps (served : I ≠ 0 → Served t ops) (below : Below held (mmLock I)) (array : List Nat) :
    (locks (t := t) (pushBlocks c ops I array)).Keeps held := by
  unfold pushBlocks
  split_ifs with batch
  · subst batch
    refine Plan.Ordered.prog_acquire (below_flLock below) ?_
    refine Plan.Keeps.prog_bind (pushBatchClass_keeps c List.mem_cons_self array) fun _ => ?_
    exact Plan.Ordered.prog_last rfl
  · refine Plan.Ordered.prog_acquire (below_flLock below) ?_
    refine Plan.Keeps.prog_bind (pushBlocksImpl_keeps c (served batch) (below_batch below batch) List.mem_cons_self
      _ _) fun _ => ?_
    exact Plan.Ordered.prog_last rfl

theorem pushNewBlocks_keeps (served : I ≠ 0 → Served t ops) (below : I ≠ 0 → Below held (mmLock 0))
    (inside : flLock I ∈ held) (array : List Nat) :
    (locks (t := t) (pushNewBlocks c ops I array)).Keeps held := by
  unfold pushNewBlocks
  split_ifs with empty batch
  · exact trivial
  · subst batch
    exact pushBatchClass_keeps c inside array
  · generalize segments c array = parts
    induction parts with
    | nil => exact Plan.Keeps.prog_pure ()
    | cons segment rest ih =>
      refine Plan.Keeps.prog_bind (Plan.Keeps.prog_locally _) fun o => ?_
      exact Plan.Keeps.prog_bind (pushBlocksImpl_keeps c (served batch) (below batch) inside _ true) fun _ => ih

theorem populateFreeListAndPopBlocks_keeps (served : I ≠ 0 → Served t ops) (below : Below held (mmLock I))
    (maxBlockCount : Nat) :
    (locks (t := t) (populateFreeListAndPopBlocks c ops I maxBlockCount)).Keeps (mmLock I :: held) := by
  have pages : (mmLock I : AllocatorLock n t) ∈ mmLock I :: held := List.mem_cons_self
  have list : (flLock I : AllocatorLock n t) ∈ flLock I :: mmLock I :: held := List.mem_cons_self
  refine Plan.Keeps.prog_bind (onPages_keeps pages) fun reserved => ?_
  split_ifs
  · exact Plan.Keeps.prog_pure []
  · refine Plan.Keeps.prog_bind (onPages_keeps pages) fun mapped => ?_
    split_ifs
    · exact Plan.Keeps.prog_pure []
    · refine Plan.Keeps.prog_bind (Plan.Keeps.prog_under _ pages) fun array => ?_
      refine Plan.Ordered.prog_acquire (below_flLock_cons below) ?_
      refine Plan.Keeps.prog_bind (pushNewBlocks_keeps c served (below_batch_both below) list array)
        fun _ => ?_
      refine Plan.Keeps.prog_bind (popBlocksImpl_keeps served (below_batch_both below) list _)
        fun blocks => ?_
      refine Plan.Keeps.prog_bind (onPages_keeps (List.mem_cons_of_mem _ pages)) fun _ => ?_
      exact Plan.Ordered.prog_release (Plan.Keeps.prog_pure blocks)

theorem populate_keeps (served : I ≠ 0 → Served t ops) (below : Below held (mmLock I)) (maxBlockCount : Nat) :
    (locks (t := t) (populate c ops I maxBlockCount)).Keeps (mmLock I :: held) := by
  have pages : (mmLock I : AllocatorLock n t) ∈ mmLock I :: held := List.mem_cons_self
  refine Plan.Keeps.prog_bind (onPages_keeps pages) fun regionIsExhausted => ?_
  split_ifs
  · exact Plan.Keeps.prog_pure ([], false)
  · refine Plan.Keeps.prog_bind (populateFreeListAndPopBlocks_keeps c served below _) fun blocks => ?_
    exact Plan.Keeps.prog_bind (onPages_keeps pages) fun exhausted => Plan.Keeps.prog_pure _

theorem popBlocksWithCV_keeps (served : I ≠ 0 → Served t ops) (below : Below held (mmLock I))
    (maxBlockCount rounds : Nat) :
    (locks (t := t) (popBlocksWithCV c ops I maxBlockCount rounds)).Keeps held := by
  have list : (flLock I : AllocatorLock n t) ∈ flLock I :: held := List.mem_cons_self
  have pops := popBlocksImpl_keeps served (below_batch below) list maxBlockCount
  induction rounds with
  | zero => exact trivial
  | succ rounds ih =>
    refine Plan.Ordered.prog_acquire (below_flLock below) ?_
    refine Plan.Keeps.prog_bind (Plan.Keeps.prog_under _ list) fun populating => ?_
    split_ifs
    · refine Plan.Keeps.prog_bind (Plan.Keeps.prog_under _ list) fun _ => ?_
      refine Plan.Ordered.prog_release ?_
      refine Plan.Ordered.prog_acquire below ?_
      refine Plan.Keeps.prog_bind (populate_keeps c served below maxBlockCount) fun result => ?_
      refine Plan.Ordered.prog_acquire (below_flLock_cons below) ?_
      refine Plan.Keeps.prog_bind (Plan.Keeps.prog_under _ List.mem_cons_self) fun _ => ?_
      exact Plan.Ordered.prog_release (Plan.Ordered.prog_release (Plan.Keeps.prog_pure result))
    · refine Plan.Ordered.prog_release ?_
      refine Plan.Ordered.prog_acquire (below_flLock below) ?_
      refine Plan.Keeps.prog_bind pops fun blocks => ?_
      split_ifs
      · exact Plan.Ordered.prog_release (Plan.Keeps.prog_pure _)
      · refine Plan.Keeps.prog_bind (Plan.Keeps.prog_under _ list) fun populating => ?_
        split_ifs
        · exact Plan.Ordered.prog_release ih
        · refine Plan.Ordered.prog_release ?_
          refine Plan.Ordered.prog_acquire (below_flLock below) ?_
          refine Plan.Keeps.prog_bind pops fun blocks => ?_
          refine Plan.Ordered.prog_release ?_
          split_ifs
          · exact Plan.Keeps.prog_pure _
          · exact ih

theorem popBlocksOrPopulate_keeps (served : I ≠ 0 → Served t ops) (below : Below held (mmLock I))
    (maxBlockCount : Nat) :
    (locks (t := t) (popBlocksOrPopulate c ops I maxBlockCount)).Keeps held := by
  unfold popBlocksOrPopulate
  split_ifs
  · refine Plan.Keeps.prog_bind (Plan.Keeps.prog_locally _) fun o => ?_
    exact popBlocksWithCV_keeps c served below maxBlockCount o.rounds
  · refine Plan.Ordered.prog_acquire below ?_
    refine Plan.Ordered.prog_acquire (below_flLock_cons below) ?_
    refine Plan.Keeps.prog_bind (popBlocksImpl_keeps served (below_batch_both below)
      List.mem_cons_self _) fun blocks => ?_
    refine Plan.Ordered.prog_release ?_
    split_ifs
    · exact Plan.Ordered.prog_release (Plan.Keeps.prog_pure _)
    · refine Plan.Keeps.prog_bind (populate_keeps c served below maxBlockCount) fun result => ?_
      exact Plan.Ordered.prog_release (Plan.Keeps.prog_pure result)

theorem popBlocks_keeps (served : I ≠ 0 → Served t ops) (below : Below held (mmLock I)) (maxBlockCount : Nat) :
    (locks (t := t) (popBlocks c ops I maxBlockCount)).Keeps held := by
  refine Plan.Ordered.prog_acquire (below_flLock below) ?_
  refine Plan.Keeps.prog_bind (popBlocksImpl_keeps served (below_batch below) List.mem_cons_self _)
    fun blocks => ?_
  refine Plan.Ordered.prog_release ?_
  split_ifs
  · exact Plan.Keeps.prog_pure blocks
  · refine Plan.Keeps.prog_bind (popBlocksOrPopulate_keeps c served below maxBlockCount) ?_
    rintro ⟨blocks, reportRegionExhausted⟩
    dsimp only
    split_ifs
    · exact trivial
    · exact Plan.Keeps.prog_pure blocks

theorem refill_keeps (served : I ≠ 0 → Served t ops) (below : Below held (mmLock I)) (maxRefill : Nat) :
    (locks (t := t) (refill c ops I maxRefill)).Keeps held :=
  Plan.Keeps.prog_bind (popBlocks_keeps c served below maxRefill) fun _ => Plan.Keeps.prog_locally _

theorem allocate_keeps (served : I ≠ 0 → Served t ops) (below : Below held (mmLock I)) :
    (locks (t := t) (Allocator64.allocate c ops I)).Keeps held := by
  refine Plan.Keeps.prog_bind (Plan.Keeps.prog_locally _) fun count => ?_
  split_ifs
  · exact Plan.Keeps.prog_locally _
  · refine Plan.Keeps.prog_bind (refill_keeps c served below _) fun refilled => ?_
    split_ifs
    · exact Plan.Keeps.prog_locally _
    · exact Plan.Keeps.prog_pure none

theorem drainClass_keeps (served : I ≠ 0 → Served t ops) (below : Below held (mmLock I)) :
    (locks (t := t) (drainClass c ops I)).Keeps held :=
  Plan.Keeps.prog_bind (Plan.Keeps.prog_locally _) fun array => pushBlocks_keeps c served below array

theorem deallocate_keeps (served : I ≠ 0 → Served t ops) (below : Below held (mmLock I)) (block : Nat) :
    (locks (t := t) (Allocator64.deallocate c ops I block)).Keeps held := by
  refine Plan.Keeps.prog_bind (Plan.Keeps.prog_locally _) fun count => ?_
  split_ifs
  · refine Plan.Keeps.prog_bind (drainClass_keeps c served below) fun _ => ?_
    exact Plan.Keeps.prog_bind (Plan.Keeps.prog_locally _) fun _ => Plan.Keeps.prog_pure true
  · exact Plan.Keeps.prog_bind (Plan.Keeps.prog_locally _) fun _ => Plan.Keeps.prog_pure false

theorem drainLoop_keeps (served : I ≠ 0 → Served t ops) (below : Below held (mmLock I)) :
    (locks (t := t) (drainLoop c ops I)).Keeps held := by
  refine Plan.Keeps.prog_bind (Plan.Keeps.prog_locally _) fun count => ?_
  generalize count + 1 = fuel
  induction fuel with
  | zero => exact trivial
  | succ fuel ih =>
    refine Plan.Keeps.prog_bind (Plan.Keeps.prog_locally _) fun count => ?_
    split_ifs
    · exact Plan.Keeps.prog_pure ()
    · exact Plan.Keeps.prog_bind (drainClass_keeps c served below) fun _ => ih

/-- The batch class itself makes no calls of the batch class. -/
theorem batchClass_served : Served t (batchClass c) := by
  constructor
  · intro held below
    refine Plan.Keeps.prog_bind (allocate_keeps c (absurd rfl) below) fun block => ?_
    cases block with
    | none => exact trivial
    | some block => exact Plan.Keeps.prog_pure block
  · intro held below node
    exact Plan.Keeps.prog_bind (deallocate_keeps c (absurd rfl) below node)
      fun _ => Plan.Keeps.prog_pure ()

/-- Every class is above those locks, so that each one may be drained. -/
theorem drain_keeps (below : ∀ I : Fin n, Below held (mmLock I)) :
    (locks (t := t) (drain c)).Keeps held := by
  have each : ∀ I, (locks (t := t) (drainLoop c (batchClass c) I)).Keeps held :=
    fun I => drainLoop_keeps c (fun _ => batchClass_served c) (below I)
  refine Plan.Keeps.prog_bind ?_ fun _ => each 0
  generalize (List.finRange n).filter _ = classes
  induction classes with
  | nil => exact Plan.Keeps.prog_pure ()
  | cons I rest ih => exact Plan.Keeps.prog_bind (each I) fun _ => ih

theorem flush_keeps (below : Below held (flLock 0)) (blocks : List Nat) :
    (locks (t := t) (flush c blocks)).Keeps held := by
  refine Plan.Keeps.prog_bind (Plan.Keeps.prog_locally _) fun _ => ?_
  refine Plan.Ordered.prog_acquire below ?_
  refine Plan.Keeps.prog_bind (pushBatchClass_keeps c List.mem_cons_self blocks) fun _ => ?_
  exact Plan.Ordered.prog_last rfl

theorem mergeLoop_keeps (below : Below held (flLock 0)) (inside : flLock I ∈ held) (cur fuel : Nat)
    (blocks : List Nat) : (locks (t := t) (mergeLoop c I cur blocks fuel)).Keeps held := by
  induction fuel generalizing cur blocks with
  | zero => exact trivial
  | succ fuel ih =>
    unfold mergeLoop
    split_ifs
    · exact trivial
    · refine Plan.Keeps.prog_bind (onList_keeps inside) fun round => ?_
      cases round.next with
      | none => exact Plan.Keeps.prog_pure blocks
      | some next =>
        dsimp only
        split_ifs
        · exact Plan.Keeps.prog_bind (flush_keeps c below blocks) fun _ => ih next _
        · exact ih next _

theorem mergeGroupsToReleaseBack_keeps (below : Below held (flLock I)) (other : I ≠ 0) :
    (locks (t := t) (mergeGroupsToReleaseBack c I)).Keeps held := by
  have list : (flLock I : AllocatorLock n t) ∈ flLock I :: held := List.mem_cons_self
  have batch : Below (flLock I :: held) (flLock 0) :=
    below_flLock (below.cons (flLock_lt_batch other))
  refine Plan.Ordered.prog_acquire below ?_
  refine Plan.Keeps.prog_bind ?_ fun _ => Plan.Ordered.prog_last rfl
  refine Plan.Keeps.prog_bind (onList_keeps list) fun rounds => ?_
  refine Plan.Keeps.prog_bind (mergeLoop_keeps c batch list 0 _ []) fun blocks => ?_
  unfold flushLast
  split_ifs
  · exact Plan.Keeps.prog_pure ()
  · exact flush_keeps c batch blocks

end Programs

section Regions

variable (c : BlockConfig n)

/-- The classes other than the batch class. -/
def classes (n : Nat) [NeZero n] : List (Fin n) := (List.finRange n).filter fun I => I ≠ 0

/-- `BufferPool::getBuffer`, with whether the buffer is a static one. -/
def getBuffer : LockPlan n t Bool := do
  let tooLarge ← .choose Bool
  if tooLarge then return false
  else .withLock bufferPoolMutex (.choose Bool)

def releaseBuffer (isStatic : Bool) : LockPlan n t Unit :=
  if isStatic then .withLock bufferPoolMutex (pure ()) else pure ()

/-- `markFreeBlocks`, what is done with the page map, and `mergeGroupsToReleaseBack`. The page map gives
its buffer back when the `PageReleaseContext` ends. -/
def markAndMerge (I : Fin n) : LockPlan n t Unit := do
  let isStatic ← getBuffer
  locks (mergeGroupsToReleaseBack c I)
  releaseBuffer isStatic

/-- The caller has `MMLock`. -/
def releaseToOSMaybe (I : Fin n) : LockPlan n t Unit := do
  let nothing ← .withLock (flLock I) (.choose Bool)
  if nothing then return
  else markAndMerge c I

def tryReleaseToOS (I : Fin n) : LockPlan n t Unit := do
  let locked ← .attempt (mmLock I)
  if locked then
    releaseToOSMaybe c I
    .unlock (mmLock I)
  else return

def Regions.releaseToOS : LockPlan n t Unit :=
  .forEach (fun I => .withLock (mmLock I) (releaseToOSMaybe c I)) (classes n)

def getRegionFragmentationInfo (I : Fin n) : LockPlan n t Unit := do
  let nothing ← .withLock (flLock I) (.choose Bool)
  if nothing then .withLock (flLock I) (pure ())
  else
    markAndMerge c I
    .withLock (flLock I) (pure ())

def getMemoryGroupFragmentationInfoInRegion (I : Fin n) : LockPlan n t Unit := releaseToOSMaybe c I

def getFragmentationInfo : LockPlan n t Unit :=
  .forEach (fun I => .withLock (mmLock I) (getRegionFragmentationInfo c I)) (classes n)

def getMemoryGroupFragmentationInfo : LockPlan n t Unit :=
  .forEach (fun I => .withLock (mmLock I) (getMemoryGroupFragmentationInfoInRegion c I)) (classes n)

/-- The totals, and then each region. -/
def Regions.getStats : LockPlan n t Unit := do
  .forEach (fun I => do
    .withLock (mmLock I) (pure ())
    .withLock (flLock I) (pure ())) (List.finRange n)
  -- `getRegionBaseByClassId` asserts that `MMLock` is held
  .forEach (fun I => .withLock (mmLock I) (.withLock (flLock I) (.assertHeld [mmLock I])))
    (List.finRange n)

/-- `BatchClassId` is locked last. -/
def Regions.disable : LockPlan n t Unit := do
  .forEach (fun I => do
    .lock (mmLock I)
    .lock (flLock I)) (classes n).reverse
  .lock (mmLock 0)
  .lock (flLock 0)

def Regions.enable : LockPlan n t Unit := do
  .unlock (flLock 0)
  .unlock (mmLock 0)
  .forEach (fun I => do
    .unlock (flLock I)
    .unlock (mmLock I)) (classes n)

def Regions.iterateOverBlocks : LockPlan n t Unit :=
  .forEach (fun I => do
    .assertHeld [flLock I]
    .assertHeld [mmLock I]) (classes n)

variable {I : Fin n} {held : List (AllocatorLock n t)}

theorem mem_classes : I ∈ classes n ↔ I ≠ 0 := by
  simp [classes]

theorem classes_increase : (classes n).Pairwise (· < ·) := (List.pairwise_lt_finRange n).filter _

omit [NeZero n] in
theorem below_bufferPool (below : Below held (mmLock I)) : Below (mmLock I :: held) bufferPoolMutex :=
  below.cons (by rw [lt_iff]; simp only [rank]; omega)

omit [NeZero n] in
theorem getBuffer_keeps (below : Below held bufferPoolMutex) :
    (getBuffer : LockPlan n t Bool).Keeps held := by
  refine Plan.Keeps.bind Plan.Keeps.choose fun tooLarge => ?_
  split_ifs
  · exact Plan.Keeps.pure false
  · exact Plan.Keeps.withLock below Plan.Keeps.choose

omit [NeZero n] in
theorem releaseBuffer_keeps (below : Below held bufferPoolMutex) (isStatic : Bool) :
    (releaseBuffer isStatic : LockPlan n t Unit).Keeps held := by
  unfold releaseBuffer
  split_ifs
  · exact Plan.Keeps.withLock below (Plan.Keeps.pure ())
  · exact Plan.Keeps.pure ()

theorem markAndMerge_keeps (below : Below held (mmLock I)) (other : I ≠ 0) :
    (markAndMerge c I).Keeps (mmLock I :: held) := by
  have pool := below_bufferPool below
  refine Plan.Keeps.bind (getBuffer_keeps pool) fun isStatic => ?_
  refine Plan.Keeps.bind (mergeGroupsToReleaseBack_keeps c (below_flLock_cons below) other) fun _ => ?_
  exact releaseBuffer_keeps pool isStatic

theorem releaseToOSMaybe_keeps (below : Below held (mmLock I)) (other : I ≠ 0) :
    (releaseToOSMaybe c I).Keeps (mmLock I :: held) := by
  refine Plan.Keeps.bind (Plan.Keeps.withLock (below_flLock_cons below) Plan.Keeps.choose)
    fun nothing => ?_
  split_ifs
  · exact Plan.Keeps.pure ()
  · exact markAndMerge_keeps c below other

theorem tryReleaseToOS_keeps (below : Below held (mmLock I)) (other : I ≠ 0) :
    (tryReleaseToOS c I).Keeps held := by
  refine Plan.Ordered.attempt_bind below ?_ ?_
  · exact Plan.Keeps.bind (releaseToOSMaybe_keeps c below other) fun _ => Plan.Ordered.unlock rfl
  · exact Plan.Keeps.pure ()

/-- An operation on each class under its `MMLock`. -/
theorem each_class_keeps {body : Fin n → LockPlan n t Unit} (below : ∀ I, Below held (mmLock I))
    (each : ∀ I, I ≠ 0 → (body I).Keeps (mmLock I :: held)) :
    (Plan.forEach (fun I => .withLock (mmLock I) (body I)) (classes n)).Keeps held :=
  Plan.Keeps.forEach fun I inside => Plan.Keeps.withLock (below I) (each I (mem_classes.mp inside))

theorem Regions.releaseToOS_keeps (below : ∀ I : Fin n, Below held (mmLock I)) :
    (Regions.releaseToOS c).Keeps held :=
  each_class_keeps below fun I other => releaseToOSMaybe_keeps c (below I) other

theorem getFragmentationInfo_keeps (below : ∀ I : Fin n, Below held (mmLock I)) :
    (getFragmentationInfo c).Keeps held := by
  refine each_class_keeps below fun I other => ?_
  have list := below_flLock_cons (below I)
  refine Plan.Keeps.bind (Plan.Keeps.withLock list Plan.Keeps.choose) fun nothing => ?_
  split_ifs
  · exact Plan.Keeps.withLock list (Plan.Keeps.pure ())
  · refine Plan.Keeps.bind (markAndMerge_keeps c (below I) other) fun _ => ?_
    exact Plan.Keeps.withLock list (Plan.Keeps.pure ())

theorem getMemoryGroupFragmentationInfo_keeps (below : ∀ I : Fin n, Below held (mmLock I)) :
    (getMemoryGroupFragmentationInfo c).Keeps held :=
  each_class_keeps below fun I other => releaseToOSMaybe_keeps c (below I) other

omit [NeZero n] in
theorem Regions.getStats_keeps (below : ∀ I : Fin n, Below held (mmLock I)) :
    (Regions.getStats : LockPlan n t Unit).Keeps held := by
  refine Plan.Keeps.bind (Plan.Keeps.forEach fun I _ => ?_) fun _ => Plan.Keeps.forEach fun I _ => ?_
  · refine Plan.Keeps.bind (Plan.Keeps.withLock (below I) (Plan.Keeps.pure ())) fun _ => ?_
    exact Plan.Keeps.withLock (below_flLock (below I)) (Plan.Keeps.pure ())
  · refine Plan.Keeps.withLock (below I) (Plan.Keeps.withLock (below_flLock_cons (below I)) ?_)
    refine Plan.Keeps.assertHeld ?_
    simp

/-- The locks of these classes, the one that was taken last first. -/
def regionLocks (order : List (Fin n)) : List (AllocatorLock n t) :=
  order.flatMap fun I => [flLock I, mmLock I]

omit [NeZero n] in
theorem below_lesser {I J : Fin n} (below : Below held (mmLock I)) (less : J < I) :
    Below (flLock I :: mmLock I :: held) (mmLock J) := by
  have bound := I.isLt
  have order : J.val < I.val := less
  have both : (mmLock I : AllocatorLock n t) < mmLock J ∧ (flLock I : AllocatorLock n t) < mmLock J := by
    rw [lt_iff, lt_iff]
    simp only [rank]
    omega
  exact (below.cons both.1).push both.2

omit [NeZero n] in
/-- Greater classes are locked first. -/
theorem lockClasses_ordered {order : List (Fin n)} (decrease : order.Pairwise (· > ·))
    (below : ∀ I ∈ order, Below held (mmLock I)) :
    (Plan.forEach (fun I => do
      .lock (mmLock I)
      .lock (flLock I)) order : LockPlan n t Unit).Ordered held fun _ after =>
        after = regionLocks order.reverse ++ held := by
  induction order generalizing held with
  | nil => rfl
  | cons I rest ih =>
    obtain ⟨lesser, decrease⟩ := List.pairwise_cons.mp decrease
    have here := below I List.mem_cons_self
    have both : (do
        Plan.lock (mmLock I)
        Plan.lock (flLock I) : LockPlan n t Unit).Ordered held fun _ after =>
          after = flLock I :: mmLock I :: held :=
      ⟨here, below_flLock_cons here, rfl⟩
    refine Plan.Ordered.bind both ?_
    rintro _ _ rfl
    have behind := ih decrease fun J inside => below_lesser here (lesser J inside)
    simpa [regionLocks] using behind

omit [NeZero n] in
theorem unlockClasses_ordered (order : List (Fin n)) :
    (Plan.forEach (fun I => do
      .unlock (flLock I)
      .unlock (mmLock I)) order : LockPlan n t Unit).Ordered (regionLocks order ++ held) fun _ after =>
        after = held := by
  induction order with
  | nil => rfl
  | cons I rest ih =>
    have both : (do
        Plan.unlock (flLock I)
        Plan.unlock (mmLock I) : LockPlan n t Unit).Ordered (regionLocks (I :: rest) ++ held)
          fun _ after => after = regionLocks rest ++ held :=
      Plan.Ordered.unlock_bind (Plan.Ordered.unlock rfl)
    refine Plan.Ordered.bind both ?_
    rintro _ _ rfl
    exact ih

/-- The locks that `disable` leaves held. -/
def allRegionLocks (n t : Nat) [NeZero n] : List (AllocatorLock n t) := regionLocks (0 :: classes n)

theorem mem_allRegionLocks {lock : AllocatorLock n t} :
    lock ∈ allRegionLocks n t ↔ ∃ I, lock = flLock I ∨ lock = mmLock I := by
  constructor
  · intro inside
    obtain ⟨I, _, member⟩ := List.mem_flatMap.mp inside
    exact ⟨I, by simpa using member⟩
  · rintro ⟨I, which⟩
    refine List.mem_flatMap.mpr ⟨I, ?_, by simpa using which⟩
    rw [List.mem_cons, mem_classes]
    exact em (I = 0)

theorem Regions.disable_ordered (below : ∀ I : Fin n, Below held (mmLock I)) :
    (Regions.disable : LockPlan n t Unit).Ordered held fun _ after =>
      after = allRegionLocks n t ++ held := by
  have order : (classes n).reverse.Pairwise (· > ·) := List.pairwise_reverse.mpr classes_increase
  refine Plan.Ordered.bind (lockClasses_ordered order fun I _ => below I) ?_
  rintro _ _ rfl
  rw [List.reverse_reverse]
  have batch : Below (regionLocks (classes n) ++ held) (mmLock 0) := by
    intro other inside
    rcases List.mem_append.mp inside with inside | inside
    · obtain ⟨I, member, which⟩ := List.mem_flatMap.mp inside
      have positive := mem_classes.mp member
      rcases List.mem_cons.mp which with rfl | which
      · exact flLock_lt_batch positive
      · obtain rfl := List.mem_singleton.mp which
        exact mmLock_lt_batch positive
    · exact below 0 other inside
  exact Plan.Ordered.lock_bind batch (Plan.Ordered.lock (below_flLock_cons batch) rfl)

theorem Regions.enable_ordered :
    (Regions.enable : LockPlan n t Unit).Ordered (allRegionLocks n t ++ held) fun _ after =>
      after = held := by
  refine Plan.Ordered.unlock_bind (Plan.Ordered.unlock_bind ?_)
  exact unlockClasses_ordered (classes n)

theorem Regions.iterateOverBlocks_keeps (inside : ∀ lock ∈ allRegionLocks n t, lock ∈ held) :
    (Regions.iterateOverBlocks : LockPlan n t Unit).Keeps held := by
  have each : ∀ (I : Fin n) (lock : AllocatorLock n t), lock = flLock I ∨ lock = mmLock I →
      ∀ other ∈ [lock], other ∈ held := by
    intro I lock which other member
    rw [List.mem_singleton.mp member]
    exact inside lock (mem_allRegionLocks.mpr ⟨I, which⟩)
  refine Plan.Keeps.forEach fun I _ => ?_
  refine Plan.Keeps.bind (Plan.Keeps.assertHeld (each I _ (Or.inl rfl))) fun _ => ?_
  exact Plan.Keeps.assertHeld (each I _ (Or.inr rfl))

end Regions

end Scudo.Locking
