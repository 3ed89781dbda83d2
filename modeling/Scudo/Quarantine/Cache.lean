import Mathlib.Algebra.Order.BigOperators.Group.List
import Mathlib.Algebra.BigOperators.Group.Multiset.Basic
import Scudo.Secondary.Types

/-!
`QuarantineBatch` and `QuarantineCache`: a list of batches of chunks and the size that is kept
for it. Next to its pointer every chunk has its size here, which the code adds to that of the
batch and forgets.
-/

namespace Scudo.Quarantine
open Scudo.Secondary (WordSize)

structure Chunk where
  ptr : Nat
  size : Nat
  deriving DecidableEq, Repr

/-- `sizeof(QuarantineBatch)`: three words, the count among them, and `MaxCount` pointers. -/
def sizeofBatch : WordSize → Nat
  | .w32 => 4088
  | .w64 => 8176

/-- A batch at `addr`. Its `Count` is the length of `batch`. -/
structure QuarantineBatch where
  addr : Nat
  size : Nat
  batch : List Chunk
  deriving DecidableEq, Repr

namespace QuarantineBatch

def maxCount : Nat := 1019

def count (b : QuarantineBatch) : Nat := b.batch.length

def init (word : WordSize) (addr : Nat) (chunk : Chunk) : QuarantineBatch :=
  ⟨addr, wadd word.bits chunk.size (sizeofBatch word), [chunk]⟩

def getQuarantinedSize (word : WordSize) (b : QuarantineBatch) : Nat :=
  wsub word.bits b.size (sizeofBatch word)

def pushBack (word : WordSize) (b : QuarantineBatch) (chunk : Chunk) : QuarantineBatch :=
  { b with size := wadd word.bits b.size chunk.size, batch := b.batch ++ [chunk] }

def canMerge (b from_ : QuarantineBatch) : Bool := decide (b.count + from_.count ≤ maxCount)

/-- The batch with the chunks of another one. -/
def merge (word : WordSize) (b from_ : QuarantineBatch) : QuarantineBatch :=
  { b with
    size := wadd word.bits b.size (from_.getQuarantinedSize word)
    batch := b.batch ++ from_.batch }

/-- What `merge` leaves of the other batch. -/
def emptied (word : WordSize) (from_ : QuarantineBatch) : QuarantineBatch :=
  { from_ with size := sizeofBatch word, batch := [] }

end QuarantineBatch

/-- `getRandomU32`. -/
def getRandomU32 (state : UInt32) : UInt32 :=
  let state := state ^^^ (state <<< 13)
  let state := state ^^^ (state >>> 17)
  state ^^^ (state <<< 5)

/-- The loop of `shuffle` from index `i` down. -/
def shuffleFrom (chunks : Array Chunk) : Nat → UInt32 → Array Chunk
  | 0, _ => chunks
  | i + 1, state =>
    let state := getRandomU32 state
    shuffleFrom (chunks.swapIfInBounds (i + 1) (state.toNat % (i + 2))) i state

def shuffle (chunks : List Chunk) (state : UInt32) : List Chunk :=
  if chunks.length ≤ 1 then chunks
  else (shuffleFrom chunks.toArray (chunks.length - 1) state).toList

theorem swapIfInBounds_perm (chunks : Array Chunk) (i j : Nat) :
    (chunks.swapIfInBounds i j).Perm chunks := by
  unfold Array.swapIfInBounds
  split_ifs
  · exact Array.swap_perm _ _
  · exact Array.Perm.rfl
  · exact Array.Perm.rfl

theorem shuffleFrom_perm (chunks : Array Chunk) (i : Nat) (state : UInt32) :
    (shuffleFrom chunks i state).Perm chunks := by
  induction i generalizing chunks state with
  | zero => exact Array.Perm.rfl
  | succ i ih => exact (ih _ _).trans (swapIfInBounds_perm _ _ _)

theorem shuffle_perm (chunks : List Chunk) (state : UInt32) : (shuffle chunks state).Perm chunks := by
  unfold shuffle
  split_ifs
  · exact List.Perm.refl _
  · exact Array.perm_iff_toList_perm.mp (shuffleFrom_perm _ _ _)

structure QuarantineCache where
  list : List QuarantineBatch
  size : Nat
  deriving DecidableEq, Repr

namespace QuarantineCache

def empty : QuarantineCache := ⟨[], 0⟩

def getOverheadSize (word : WordSize) (c : QuarantineCache) : Nat :=
  wrap word.bits (c.list.length * sizeofBatch word)

def enqueueBatch (word : WordSize) (c : QuarantineCache) (b : QuarantineBatch) : QuarantineCache :=
  ⟨c.list ++ [b], wadd word.bits c.size b.size⟩

/-- `enqueue` has to allocate a batch first. -/
def needsBatch (c : QuarantineCache) : Bool :=
  match c.list.getLast? with
  | none => true
  | some back => back.count == QuarantineBatch.maxCount

/-- `addr` is the address of the batch that is allocated, if one is. -/
def enqueue (word : WordSize) (c : QuarantineCache) (addr : Nat) (chunk : Chunk) : QuarantineCache :=
  match c.list.getLast? with
  | none => c.enqueueBatch word (QuarantineBatch.init word addr chunk)
  | some back =>
    if back.count = QuarantineBatch.maxCount then
      c.enqueueBatch word (QuarantineBatch.init word addr chunk)
    else ⟨c.list.dropLast ++ [back.pushBack word chunk], wadd word.bits c.size chunk.size⟩

/-- What the target of `transfer` becomes; the source becomes empty. -/
def transfer (word : WordSize) (c from_ : QuarantineCache) : QuarantineCache :=
  ⟨c.list ++ from_.list, wadd word.bits c.size from_.size⟩

def dequeueBatch (word : WordSize) (c : QuarantineCache) :
    Option QuarantineBatch × QuarantineCache :=
  match c.list with
  | [] => (none, c)
  | b :: rest => (some b, ⟨rest, wsub word.bits c.size b.size⟩)

/-- The loop of `mergeBatches`: the batches that stay, `ExtractedSize`, and `ToDeallocate`. -/
def mergeLoop (word : WordSize) (current : QuarantineBatch) :
    List QuarantineBatch → Nat → QuarantineCache → List QuarantineBatch × Nat × QuarantineCache
  | [], extractedSize, toDeallocate => ([current], extractedSize, toDeallocate)
  | next :: rest, extractedSize, toDeallocate =>
    if current.canMerge next then
      mergeLoop word (current.merge word next) rest
        (wadd word.bits extractedSize (next.emptied word).size)
        (toDeallocate.enqueueBatch word (next.emptied word))
    else
      let others := mergeLoop word next rest extractedSize toDeallocate
      (current :: others.1, others.2)

def mergeBatches (word : WordSize) (c toDeallocate : QuarantineCache) :
    QuarantineCache × QuarantineCache :=
  match c.list with
  | [] => (⟨[], wsub word.bits c.size 0⟩, toDeallocate)
  | current :: rest =>
    let merged := mergeLoop word current rest 0 toDeallocate
    (⟨merged.1, wsub word.bits c.size merged.2.1⟩, merged.2.2)

/-- The extraction loop of `recycle` into `tmp`, `none` when it would enqueue a null batch. -/
def extractLoop (word : WordSize) (minSize : Nat) :
    List QuarantineBatch → Nat → QuarantineCache → Option (QuarantineCache × QuarantineCache)
  | [], size, tmp => if minSize < size then none else some (⟨[], size⟩, tmp)
  | b :: rest, size, tmp =>
    if minSize < size then
      extractLoop word minSize rest (wsub word.bits size b.size) (tmp.enqueueBatch word b)
    else some (⟨b :: rest, size⟩, tmp)

/-- The merge of `recycle`, when the overhead is over the threshold. -/
def mergeForRecycle (word : WordSize) (c : QuarantineCache) : QuarantineCache × QuarantineCache :=
  let overheadThresholdPercents := 100
  if c.getOverheadSize word < c.size ∧
      wrap word.bits (c.size * overheadThresholdPercents) <
        wrap word.bits (c.getOverheadSize word * (100 + overheadThresholdPercents)) then
    c.mergeBatches word empty
  else (c, empty)

/-- What `recycle` does under the lock of the cache: the cache and `Tmp`. -/
def extractForRecycle (word : WordSize) (minSize : Nat) (c : QuarantineCache) :
    Option (QuarantineCache × QuarantineCache) :=
  let merged := c.mergeForRecycle word
  extractLoop word minSize merged.1.list merged.1.size merged.2

end QuarantineCache

/-- A piece of memory that a quarantine keeps. -/
inductive Item where
  | chunk (chunk : Chunk)
  | batch (addr : Nat)
  deriving DecidableEq, Repr

def Item.bytes (word : WordSize) : Item → Nat
  | .chunk c => c.size
  | .batch _ => sizeofBatch word

/-- Bytes of all pieces. -/
def weight (word : WordSize) (items : Multiset Item) : Nat := (items.map (Item.bytes word)).sum

def chunkItems (chunks : List Chunk) : Multiset Item := (chunks.map Item.chunk : List Item)

/-- The batch itself and its chunks. -/
def QuarantineBatch.items (b : QuarantineBatch) : Multiset Item :=
  Item.batch b.addr ::ₘ chunkItems b.batch

def batchesItems (list : List QuarantineBatch) : Multiset Item :=
  (list.map QuarantineBatch.items).sum

def QuarantineCache.items (c : QuarantineCache) : Multiset Item := batchesItems c.list

/-- What `enqueue` adds to a cache. -/
def QuarantineCache.entering (c : QuarantineCache) (addr : Nat) (chunk : Chunk) : Multiset Item :=
  Item.chunk chunk ::ₘ if c.needsBatch then {Item.batch addr} else 0

/-- The size of a batch is the one of its chunks and its own. -/
structure QuarantineBatch.Exact (word : WordSize) (b : QuarantineBatch) : Prop where
  size : b.size = (b.batch.map Chunk.size).sum + sizeofBatch word
  count_le : b.count ≤ QuarantineBatch.maxCount

/-- The size of a cache is the sum of those of its batches. -/
structure QuarantineCache.Exact (word : WordSize) (c : QuarantineCache) : Prop where
  size : c.size = (c.list.map QuarantineBatch.size).sum
  batches : ∀ b ∈ c.list, b.Exact word

section Items

variable {word : WordSize}

@[simp] theorem weight_add (first second : Multiset Item) :
    weight word (first + second) = weight word first + weight word second := by
  simp [weight]

theorem weight_mono {items more : Multiset Item} (le : items ≤ more) :
    weight word items ≤ weight word more := by
  obtain ⟨others, rfl⟩ := Multiset.le_iff_exists_add.mp le
  rw [weight_add]
  exact Nat.le_add_right _ _

@[simp] theorem weight_zero : weight word 0 = 0 := rfl

@[simp] theorem weight_cons (item : Item) (items : Multiset Item) :
    weight word (item ::ₘ items) = item.bytes word + weight word items := by
  simp [weight]

@[simp] theorem weight_singleton (item : Item) : weight word {item} = item.bytes word := by
  simp [weight]

theorem weight_chunkItems (chunks : List Chunk) :
    weight word (chunkItems chunks) = (chunks.map Chunk.size).sum := by
  induction chunks with
  | nil => rfl
  | cons c rest ih =>
    have parts : chunkItems (c :: rest) = Item.chunk c ::ₘ chunkItems rest := rfl
    rw [parts, weight_cons, ih]
    rfl

theorem chunkItems_append (first second : List Chunk) :
    chunkItems (first ++ second) = chunkItems first + chunkItems second := by
  simp [chunkItems]

theorem chunkItems_perm {first second : List Chunk} (perm : first.Perm second) :
    chunkItems first = chunkItems second := Multiset.coe_eq_coe.mpr (perm.map Item.chunk)

@[simp] theorem batchesItems_nil : batchesItems [] = 0 := rfl

@[simp] theorem batchesItems_cons (b : QuarantineBatch) (list : List QuarantineBatch) :
    batchesItems (b :: list) = b.items + batchesItems list := by
  simp [batchesItems]

@[simp] theorem batchesItems_append (first second : List QuarantineBatch) :
    batchesItems (first ++ second) = batchesItems first + batchesItems second := by
  simp [batchesItems]

theorem QuarantineBatch.Exact.weight_eq {b : QuarantineBatch} (exact_ : b.Exact word) :
    weight word b.items = b.size := by
  unfold QuarantineBatch.items
  rw [weight_cons, weight_chunkItems, exact_.size, Nat.add_comm]
  rfl

theorem weight_batchesItems {list : List QuarantineBatch} (exact_ : ∀ b ∈ list, b.Exact word) :
    weight word (batchesItems list) = (list.map QuarantineBatch.size).sum := by
  induction list with
  | nil => rfl
  | cons b rest ih =>
    rw [batchesItems_cons, weight_add, (exact_ b List.mem_cons_self).weight_eq,
      ih fun other member => exact_ other (List.mem_cons_of_mem _ member), List.map_cons,
      List.sum_cons]

/-- The size of a cache is what its chunks and batches take. -/
theorem QuarantineCache.Exact.weight_eq {c : QuarantineCache} (exact_ : c.Exact word) :
    weight word c.items = c.size := by
  rw [exact_.size]
  exact weight_batchesItems exact_.batches

end Items

end Scudo.Quarantine
