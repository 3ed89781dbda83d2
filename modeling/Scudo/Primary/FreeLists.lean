import Mathlib.Algebra.BigOperators.Pi
import Mathlib.Algebra.Order.Sub.Basic
import Scudo.Primary.Types

/-!
The free lists of `SizeClassAllocator64` with the nodes they are made of. A transfer batch and a
batch group live in a block of the batch class, whose own free list records those blocks too.
-/

namespace Scudo.Primary.Allocator64

/-- The parameters of the allocator. Class 0 is the batch class. -/
structure BlockConfig (n : Nat) [NeZero n] extends PrimaryConfig where
  regionSizeLog : Nat
  compactPtrBits : Nat
  contiguousRegions : Bool
  conditionVariable : Bool
  mapSizeIncrement : Nat
  maxNumBatches : Nat
  maxNumCachedHint : Nat
  maxBytesCachedLog : Nat
  getSizeByClassId : Fin n → Nat
  /-- Where the region begins, and how far that is from the beginning of its mapping. -/
  regionBeg : Fin n → Nat
  regionBase : Fin n → Nat
  group_le : groupSizeLog ≤ regionSizeLog
  pointers : regionSizeLog ≤ compactPtrBits + compactPtrScale
  positive : ∀ i, 0 < getSizeByClassId i
  scaled : ∀ i, 2 ^ compactPtrScale ∣ getSizeByClassId i
  increment : isPowerOfTwo mapSizeIncrement = true
  mapFits : ∀ i, maxNumCachedHint * getSizeByClassId i + mapSizeIncrement ≤ 2 ^ 64
  /-- What is mapped beforehand has a number of blocks that `u32` counts. -/
  countFits : ∀ i, maxNumCachedHint * getSizeByClassId i + mapSizeIncrement ≤ 2 ^ 32 * getSizeByClassId i
  batches_pos : 0 < maxNumBatches
  hint_ge : 2 ≤ maxNumCachedHint
  hint_lt : 2 * maxNumCachedHint < 2 ^ 16
  batch_le : 2 * getSizeByClassId 0 ≤ 2 ^ maxBytesCachedLog

namespace BlockConfig

variable {n : Nat} [NeZero n] (c : BlockConfig n)

def regionSize : Nat := 2 ^ c.regionSizeLog

def getMaxCachedHint (size : Nat) : Nat :=
  max 1 (min c.maxNumCachedHint ((1 <<< c.maxBytesCachedLog) / size))

def getMaxCached (size : Nat) : Nat := min c.maxNumCachedHint (c.getMaxCachedHint size)

/-- `MaxCount` of a class, as `initCache` sets it. -/
def maxCount (I : Fin n) : Nat := wrap 16 (2 * c.getMaxCached (c.getSizeByClassId I))

def compactPtrInternal (base ptr : Nat) : Nat := wrap c.compactPtrBits ((ptr - base) >>> c.compactPtrScale)

/-- The compact pointer of block `k` of a region. -/
def block (I : Fin n) (k : Nat) : Nat :=
  c.compactPtrInternal (c.regionBeg I) (c.regionBeg I + k * c.getSizeByClassId I)

/-- How many blocks the region has room for. -/
def limit (I : Fin n) : Nat := (c.regionSize - c.regionBase I) / c.getSizeByClassId I

theorem getMaxCached_pos (size : Nat) : 0 < c.getMaxCached size := by
  have hint := c.hint_ge
  unfold getMaxCached getMaxCachedHint
  omega

theorem getMaxCached_le (size : Nat) : c.getMaxCached size ≤ c.maxNumCachedHint := Nat.min_le_left _ _

theorem two_le_getMaxCached : 2 ≤ c.getMaxCached (c.getSizeByClassId 0) := by
  have hint := c.hint_ge
  have quotient : 2 ≤ (1 <<< c.maxBytesCachedLog) / c.getSizeByClassId 0 := by
    rw [Nat.le_div_iff_mul_le (c.positive 0), Nat.one_shiftLeft]
    exact c.batch_le
  unfold getMaxCached getMaxCachedHint
  omega

theorem maxCount_eq (I : Fin n) : c.maxCount I = 2 * c.getMaxCached (c.getSizeByClassId I) := by
  have le := c.getMaxCached_le (c.getSizeByClassId I)
  have hint := c.hint_lt
  exact wrap_eq (by omega)

theorem block_eq {I : Fin n} {k : Nat} (lt : k < c.limit I) :
    c.block I k = k * (c.getSizeByClassId I / 2 ^ c.compactPtrScale) := by
  obtain ⟨m, size⟩ := c.scaled I
  have scale := Nat.two_pow_pos c.compactPtrScale
  have below : k * c.getSizeByClassId I < c.regionSize := by
    have room : k < (c.regionSize - c.regionBase I) / c.getSizeByClassId I := lt
    rw [Nat.lt_div_iff_mul_lt (c.positive I)] at room
    omega
  have offset : k * c.getSizeByClassId I = k * m * 2 ^ c.compactPtrScale := by
    rw [size]
    ring
  have fits : k * m < 2 ^ c.compactPtrBits := by
    have powers : c.regionSize ≤ 2 ^ c.compactPtrBits * 2 ^ c.compactPtrScale := by
      rw [← Nat.pow_add]
      exact Nat.pow_le_pow_right (by decide) c.pointers
    rw [offset] at below
    exact Nat.lt_of_mul_lt_mul_right (lt_of_lt_of_le below powers)
  unfold block compactPtrInternal
  rw [Nat.add_sub_cancel_left, Nat.shiftRight_eq_div_pow, offset, Nat.mul_div_cancel _ scale,
    wrap_eq fits, size, Nat.mul_div_cancel_left _ scale]

/-- Where a region is one group, its blocks have the group 0. -/
theorem block_group {I : Fin n} {k : Nat} (lt : k < c.limit I)
    (ungrouped : ¬c.groupSizeLog < c.regionSizeLog) : c.compactPtrGroup (c.block I k) = 0 := by
  apply c.compactPtrGroup_zero
  have scale := Nat.two_pow_pos c.compactPtrScale
  apply Nat.lt_of_mul_lt_mul_right (a := 2 ^ c.compactPtrScale)
  rw [← c.groupSize_eq, c.block_eq lt, Nat.mul_assoc, Nat.div_mul_cancel (c.scaled I)]
  have room : k < (c.regionSize - c.regionBase I) / c.getSizeByClassId I := lt
  rw [Nat.lt_div_iff_mul_lt (c.positive I)] at room
  have region : c.regionSize ≤ c.groupSize :=
    Nat.pow_le_pow_right (by decide) (Nat.le_of_not_lt ungrouped)
  omega

/-- Different blocks of a region have different compact pointers. -/
theorem block_inj {I : Fin n} {j k : Nat} (ltJ : j < c.limit I) (ltK : k < c.limit I)
    (same : c.block I j = c.block I k) : j = k := by
  have scale := Nat.two_pow_pos c.compactPtrScale
  have unit : 0 < c.getSizeByClassId I / 2 ^ c.compactPtrScale :=
    Nat.div_pos (Nat.le_of_dvd (c.positive I) (c.scaled I)) scale
  rw [c.block_eq ltJ, c.block_eq ltK] at same
  exact Nat.eq_of_mul_eq_mul_right unit same

end BlockConfig

/-- A `TransferBatch` and a `BatchGroup` in the blocks of the batch class at `addr`. The lists start
with the front. -/
structure BatchNode extends TransferBatch where
  addr : Nat
  deriving DecidableEq, Repr

structure GroupNode where
  addr : Nat
  compactPtrGroupBase : Nat
  batches : List BatchNode
  maxCachedPerBatch : Nat
  deriving DecidableEq, Repr

/-- The blocks of a node that was unlinked, or of none. -/
def ofNode : Option Nat → Multiset Nat
  | none => 0
  | some node => {node}

@[simp] theorem ofNode_none : ofNode none = 0 := rfl
@[simp] theorem ofNode_some (node : Nat) : ofNode (some node) = {node} := rfl

/-- What `FLLock` guards, and what `MMLock` guards. `numberOfBlocks` is the local variable of
`populateFreeListAndPopBlocks`, while `allocatedUser` does not have its blocks yet. -/
structure FreeListInfo where
  blockList : List GroupNode
  isPopulatingFreeList : Bool
  deriving DecidableEq, Repr

structure MemMapInfo where
  isAllocated : Bool
  mappedUser : Nat
  allocatedUser : Nat
  exhausted : Bool
  numberOfBlocks : Nat
  deriving DecidableEq, Repr

section Lists

variable {n : Nat} [NeZero n] (c : BlockConfig n)

/-- `moveNToArray` of the front batch, which is unlinked where it is then empty: the blocks, and the
batch. A group of the batch class that has no batch is itself the block. -/
def popFront (I : Fin n) (maxBlockCount : Nat) :
    List GroupNode → List GroupNode × List Nat × Option Nat
  | [] => ([], [], none)
  | group :: groups =>
    match group.batches with
    | [] => (groups, [group.addr], none)
    | batch :: batches =>
      let popCount := if I = 0 then batch.getCount else min maxBlockCount batch.getCount
      let blocks := batch.batch.drop (batch.getCount - popCount)
      let rest := batch.batch.take (batch.getCount - popCount)
      if rest = [] then ({ group with batches := batches } :: groups, blocks, some batch.addr)
      else ({ group with batches := { batch with batch := rest } :: batches } :: groups, blocks, none)

/-- A front group whose last batch was unlinked is unlinked too. -/
def dropEmptyGroup : List GroupNode → List GroupNode × Option Nat
  | [] => ([], none)
  | group :: groups =>
    if group.batches = [] then (groups, some group.addr) else (group :: groups, none)

/-- The batch class always takes all blocks of the front batch, and with the last batch its group. -/
def popBatchClass (maxBlockCount : Nat) (groups : List GroupNode) : List GroupNode × List Nat :=
  match popFront (0 : Fin n) maxBlockCount groups with
  | (rest, blocks, none) => (rest, blocks)
  | (rest, blocks, some _) => ((dropEmptyGroup rest).1, blocks)

/-- The loop of `pushBatchClassBlocks`. A batch that is full is followed by one that starts with its
own block. -/
def appendBatchClass (maxCachedPerBatch : Nat) (curBatch : BatchNode) (batches : List BatchNode)
    (array : List Nat) : List BatchNode :=
  match array with
  | [] => curBatch :: batches
  | first :: others =>
    let unusedSlots := maxCachedPerBatch - curBatch.getCount
    if unusedSlots = 0 then
      let appendSize := min (maxCachedPerBatch - 1) others.length
      appendBatchClass maxCachedPerBatch ⟨⟨first :: others.take appendSize⟩, first⟩
        (curBatch :: batches) (others.drop appendSize)
    else
      let appendSize := min unusedSlots (first :: others).length
      appendBatchClass maxCachedPerBatch
        { curBatch with batch := curBatch.batch ++ (first :: others).take appendSize } batches
        ((first :: others).drop appendSize)
termination_by array.length
decreasing_by all_goals (simp only [List.length_drop, List.length_cons]; omega)

/-- `pushBatchClassBlocks` once there is a group. -/
def pushBatchClassGroup (group : GroupNode) (array : List Nat) : GroupNode :=
  match array.getLast? with
  | none => group
  | some last =>
    match group.batches with
    | [] =>
      let tb : BatchNode := ⟨⟨[last, group.addr]⟩, last⟩
      { group with batches := appendBatchClass group.maxCachedPerBatch tb [] array.dropLast }
    | curBatch :: batches =>
      { group with batches := appendBatchClass group.maxCachedPerBatch curBatch batches array }

/-- The group is constructed on the last block where there is none. -/
def pushBatchClassBlocks (array : List Nat) : List GroupNode → List GroupNode
  | [] =>
    match array.getLast? with
    | none => []
    | some last =>
      [pushBatchClassGroup
        { addr := last, compactPtrGroupBase := 0, batches := [],
          maxCachedPerBatch := c.getMaxCached (c.getSizeByClassId 0) } array.dropLast]
  | group :: groups => pushBatchClassGroup group array :: groups

/-- The loops of `pushBlocksImpl` that move `Cur`, here the number of groups before it. -/
def advance (groups : List GroupNode) (cur base : Nat) : Nat :=
  cur + ((groups.drop cur).takeWhile fun group => group.compactPtrGroupBase < base).length

/-- The group that `CreateGroup` returns, with an empty batch, and its insertion where `Cur` is. -/
def newGroup (base bg tb : Nat) : GroupNode where
  addr := bg
  compactPtrGroupBase := base
  batches := [⟨⟨[]⟩, tb⟩]
  maxCachedPerBatch := c.maxNumCachedHint

def createGroup (groups : List GroupNode) (cur base bg tb : Nat) : List GroupNode :=
  groups.insertIdx cur (newGroup c base bg tb)

/-- `UnusedSlots` of the group's front batch. -/
def unusedSlots (groups : List GroupNode) (cur : Nat) : Nat :=
  match groups[cur]? with
  | none => 0
  | some group => group.maxCachedPerBatch - (group.batches.head?.map fun b => b.getCount).getD 0

/-- A new batch at the front of the group, and blocks appended to the front batch. -/
def GroupNode.pushFront (tb : Nat) (group : GroupNode) : GroupNode :=
  { group with batches := ⟨⟨[]⟩, tb⟩ :: group.batches }

def pushFrontBatch (groups : List GroupNode) (cur tb : Nat) : List GroupNode :=
  groups.modify cur (GroupNode.pushFront tb)

def BatchNode.append (array : List Nat) (batch : BatchNode) : BatchNode :=
  { batch with batch := batch.batch ++ array }

def GroupNode.append (array : List Nat) (group : GroupNode) : GroupNode :=
  { group with batches := group.batches.modifyHead (BatchNode.append array) }

def appendFromArray (groups : List GroupNode) (cur : Nat) (array : List Nat) : List GroupNode :=
  groups.modify cur (GroupNode.append array)

/-- `BG` and `Cur` of one group in `mergeGroupsToReleaseBack`: the batches, and the batch that is
unused afterwards. The first batches may not be full. -/
def mergeBatches (maxCachedPerBatch : Nat) (batches : List BatchNode) :
    List BatchNode → List BatchNode × Option Nat
  | [] => (batches, none)
  | nonFullBatch :: others =>
    if nonFullBatch.getCount = maxCachedPerBatch then (batches ++ nonFullBatch :: others, none)
    else
      match batches ++ others with
      | [] => ([nonFullBatch], none)
      | front :: rest =>
        if front.getCount = maxCachedPerBatch then (nonFullBatch :: front :: rest, none)
        else
          let numBlocksToMove := min (maxCachedPerBatch - front.getCount) nonFullBatch.getCount
          let left := nonFullBatch.batch.take (nonFullBatch.getCount - numBlocksToMove)
          let moved := nonFullBatch.batch.drop (nonFullBatch.getCount - numBlocksToMove)
          if left = [] then (front.append moved :: rest, some nonFullBatch.addr)
          else ({ nonFullBatch with batch := left } :: front.append moved :: rest, none)

/-- A round of the loop of `mergeGroupsToReleaseBack`, where `BG` has `cur` groups before it: the
list, the number for the next round, the groups that are left, and the nodes that are now unused. At
the end there is no next round. -/
structure MergeRound where
  blockList : List GroupNode
  next : Option Nat
  groupsToRelease : List GroupNode
  unused : List Nat

def mergeRound (blockList : List GroupNode) (cur : Nat) (groupsToRelease : List GroupNode) :
    MergeRound :=
  match blockList[cur]?, groupsToRelease with
  | none, _ => ⟨blockList ++ groupsToRelease, none, [], []⟩
  | some _, [] => ⟨blockList, none, [], []⟩
  | some bg, front :: groups =>
    if bg.compactPtrGroupBase < front.compactPtrGroupBase then
      ⟨blockList, some (cur + 1), front :: groups, []⟩
    else if bg.compactPtrGroupBase = front.compactPtrGroupBase then
      let merged := mergeBatches bg.maxCachedPerBatch bg.batches front.batches
      ⟨blockList.modify cur fun group => { group with batches := merged.1 }, some (cur + 1), groups,
        front.addr :: merged.2.toList⟩
    else ⟨blockList.insertIdx cur front, some (cur + 1), groups, []⟩

/-- The insertion sort of `pushBlocks`: a block goes behind those whose group is not larger. -/
def insertBlock (cur : Nat) : List Nat → List Nat
  | [] => [cur]
  | block :: blocks =>
    if c.compactPtrGroup cur < c.compactPtrGroup block then cur :: block :: blocks
    else block :: insertBlock cur blocks

def sortByGroup : List Nat → List Nat := List.foldl (fun sorted cur => insertBlock c cur sorted) []

/-- Whether all blocks are of one group. -/
def sameGroup : List Nat → Bool
  | [] => true
  | first :: others => others.all fun block => c.compactPtrGroup block == c.compactPtrGroup first

/-- The segments of neighbours of one group. -/
def segments (array : List Nat) : List (List Nat) :=
  array.splitBy fun x y => c.compactPtrGroup x == c.compactPtrGroup y

end Lists

end Scudo.Primary.Allocator64
