import Mathlib.Tactic.Abel
import Scudo.Quarantine.Cache

/-!
Every operation of a quarantine cache keeps its sizes exact and moves chunks and batches without
losing or doubling one, as long as all that it touches fits into the address space.
-/

namespace Scudo.Quarantine
open Scudo.Secondary (WordSize)

variable {word : WordSize}

theorem sizeofBatch_pos (word : WordSize) : 0 < sizeofBatch word := by
  cases word <;> decide

namespace QuarantineBatch

variable {b next : QuarantineBatch}

theorem Exact.sizeof_le (exact_ : b.Exact word) : sizeofBatch word ≤ b.size := by
  rw [exact_.size]
  exact Nat.le_add_left _ _

theorem init_exact (addr : Nat) {chunk : Chunk} (room : chunk.size + sizeofBatch word < 2 ^ word.bits) :
    (init word addr chunk).Exact word where
  size := by
    change wadd word.bits chunk.size (sizeofBatch word) = _
    rw [wadd_eq room]
    simp [init]
  count_le := by
    change 1 ≤ maxCount
    decide

@[simp] theorem init_items (addr : Nat) (chunk : Chunk) :
    (init word addr chunk).items = {Item.batch addr} + {Item.chunk chunk} := rfl

theorem pushBack_exact {chunk : Chunk} (exact_ : b.Exact word) (free : b.count ≠ maxCount)
    (room : b.size + chunk.size < 2 ^ word.bits) : (b.pushBack word chunk).Exact word where
  size := by
    change wadd word.bits b.size chunk.size = ((b.batch ++ [chunk]).map Chunk.size).sum + _
    rw [wadd_eq room, exact_.size, List.map_append, List.sum_append]
    simp only [List.map_cons, List.map_nil, List.sum_cons, List.sum_nil]
    omega
  count_le := by
    have below := exact_.count_le
    change (b.batch ++ [chunk]).length ≤ maxCount
    unfold count at *
    simp only [List.length_append, List.length_singleton]
    omega

theorem pushBack_items (chunk : Chunk) :
    (b.pushBack word chunk).items = b.items + {Item.chunk chunk} := by
  unfold items pushBack
  dsimp only
  rw [chunkItems_append, Multiset.cons_add]
  rfl

theorem emptied_exact (word : WordSize) (next : QuarantineBatch) :
    (next.emptied word).Exact word where
  size := (Nat.zero_add _).symm
  count_le := Nat.zero_le _

theorem merge_exact (first : b.Exact word) (second : next.Exact word)
    (fits : b.canMerge next = true) (room : b.size + next.size < 2 ^ word.bits) :
    (b.merge word next).Exact word where
  size := by
    have least := second.sizeof_le
    have quarantined : next.getQuarantinedSize word = next.size - sizeofBatch word :=
      wsub_eq (by omega) least
    change wadd word.bits b.size (next.getQuarantinedSize word) =
      ((b.batch ++ next.batch).map Chunk.size).sum + _
    rw [quarantined, wadd_eq (by omega), first.size, second.size, List.map_append,
      List.sum_append]
    omega
  count_le := by
    change (b.batch ++ next.batch).length ≤ maxCount
    rw [List.length_append]
    exact of_decide_eq_true fits

theorem merge_items (b next : QuarantineBatch) :
    (b.merge word next).items + (next.emptied word).items = b.items + next.items := by
  unfold items merge emptied
  dsimp only
  have none : chunkItems [] = 0 := rfl
  rw [chunkItems_append, none]
  simp only [← Multiset.singleton_add]
  abel

end QuarantineBatch

namespace QuarantineCache

variable {c tmp : QuarantineCache}

theorem empty_exact : empty.Exact word where
  size := rfl
  batches := fun _ member => absurd member List.not_mem_nil

theorem length_mul_le {list : List QuarantineBatch} (exact_ : ∀ b ∈ list, b.Exact word) :
    list.length * sizeofBatch word ≤ (list.map QuarantineBatch.size).sum := by
  induction list with
  | nil => simp
  | cons b rest ih =>
    have first := (exact_ b List.mem_cons_self).sizeof_le
    have others := ih fun other member => exact_ other (List.mem_cons_of_mem _ member)
    rw [List.length_cons, List.map_cons, List.sum_cons, Nat.add_mul, Nat.one_mul]
    omega

/-- The accounting overhead is part of the size. -/
theorem Exact.overhead_le (exact_ : c.Exact word) (room : c.size < 2 ^ word.bits) :
    c.getOverheadSize word ≤ c.size := by
  have least := length_mul_le exact_.batches
  rw [← exact_.size] at least
  unfold getOverheadSize
  rw [wrap_eq (by omega)]
  exact least

theorem Exact.list_eq_nil (exact_ : c.Exact word) (zero : c.size = 0) : c.list = [] := by
  have least := length_mul_le exact_.batches
  have positive := sizeofBatch_pos word
  rw [← exact_.size, zero] at least
  apply List.eq_nil_of_length_eq_zero
  have bound := Nat.le_mul_of_pos_right c.list.length positive
  omega

theorem enqueueBatch_exact {b : QuarantineBatch} (exact_ : c.Exact word) (new : b.Exact word)
    (room : c.size + b.size < 2 ^ word.bits) : (c.enqueueBatch word b).Exact word where
  size := by
    change wadd word.bits c.size b.size = ((c.list ++ [b]).map QuarantineBatch.size).sum
    rw [wadd_eq room, exact_.size]
    simp
  batches := by
    intro other member
    rcases List.mem_append.mp member with old | last
    · exact exact_.batches other old
    · rw [List.mem_singleton.mp last]
      exact new

theorem enqueueBatch_items (c : QuarantineCache) (b : QuarantineBatch) :
    (c.enqueueBatch word b).items = c.items + b.items := by
  unfold items enqueueBatch
  simp

theorem enqueueBatch_size {b : QuarantineBatch} (room : c.size + b.size < 2 ^ word.bits) :
    (c.enqueueBatch word b).size = c.size + b.size := wadd_eq room

/-- A new chunk starts a batch, or joins the last one. -/
theorem enqueue_cases (word : WordSize) (c : QuarantineCache) (addr : Nat) (chunk : Chunk) :
    (c.needsBatch = true ∧
        c.enqueue word addr chunk = c.enqueueBatch word (QuarantineBatch.init word addr chunk)) ∨
      c.needsBatch = false ∧ ∃ front back, c.list = front ++ [back] ∧
        back.count ≠ QuarantineBatch.maxCount ∧
        c.enqueue word addr chunk =
          ⟨front ++ [back.pushBack word chunk], wadd word.bits c.size chunk.size⟩ := by
  rcases List.eq_nil_or_concat' c.list with none | ⟨front, back, shape⟩
  · left
    simp [needsBatch, enqueue, none]
  · by_cases full : back.count = QuarantineBatch.maxCount
    · left
      simp [needsBatch, enqueue, shape, full]
    · right
      refine ⟨by simp [needsBatch, shape, full], front, back, shape, full, ?_⟩
      simp [enqueue, shape, full]

theorem enqueue_items (word : WordSize) (c : QuarantineCache) (addr : Nat) (chunk : Chunk) :
    (c.enqueue word addr chunk).items = c.items + c.entering addr chunk := by
  unfold entering
  rcases enqueue_cases word c addr chunk with ⟨needs, run⟩ | ⟨joins, front, back, shape, _, run⟩
  · rw [run, enqueueBatch_items, QuarantineBatch.init_items, if_pos needs]
    rw [add_comm {Item.batch addr}]
    rfl
  · rw [run, if_neg (by simp [joins])]
    unfold items
    rw [shape, batchesItems_append, batchesItems_append, batchesItems_cons, batchesItems_cons,
      QuarantineBatch.pushBack_items, batchesItems_nil, add_zero, add_zero, ← add_assoc]
    rfl

theorem enqueue_exact {addr : Nat} {chunk : Chunk} (exact_ : c.Exact word)
    (room : weight word (c.items + c.entering addr chunk) < 2 ^ word.bits) :
    (c.enqueue word addr chunk).Exact word := by
  rw [weight_add, exact_.weight_eq] at room
  unfold entering at room
  rw [weight_cons] at room
  change c.size + (chunk.size + _) < _ at room
  rcases enqueue_cases word c addr chunk with ⟨needs, run⟩ | ⟨joins, front, back, shape, free, run⟩
  · rw [if_pos needs, weight_singleton] at room
    change c.size + (chunk.size + sizeofBatch word) < _ at room
    have new := QuarantineBatch.init_exact addr (by omega :
      chunk.size + sizeofBatch word < 2 ^ word.bits)
    have size : (QuarantineBatch.init word addr chunk).size = chunk.size + sizeofBatch word :=
      wadd_eq (by omega)
    rw [run]
    exact enqueueBatch_exact exact_ new (by omega)
  · have total := exact_.size
    rw [shape] at total
    simp only [List.map_append, List.map_cons, List.map_nil, List.sum_append, List.sum_cons,
      List.sum_nil] at total
    have backExact := exact_.batches back (by simp [shape])
    have backSize : (back.pushBack word chunk).size = back.size + chunk.size :=
      wadd_eq (by omega)
    rw [run]
    apply Exact.mk
    · simp only [List.map_append, List.map_cons, List.map_nil, List.sum_append, List.sum_cons,
        List.sum_nil, backSize]
      rw [wadd_eq (by omega)]
      omega
    · intro other member
      rcases List.mem_append.mp member with old | last
      · exact exact_.batches other (by simp [shape, old])
      · rw [List.mem_singleton.mp last]
        exact QuarantineBatch.pushBack_exact backExact free (by omega)

theorem transfer_items (c from_ : QuarantineCache) :
    (c.transfer word from_).items = c.items + from_.items := by
  unfold items transfer
  simp

theorem transfer_exact {from_ : QuarantineCache} (exact_ : c.Exact word) (other : from_.Exact word)
    (room : c.size + from_.size < 2 ^ word.bits) : (c.transfer word from_).Exact word where
  size := by
    change wadd word.bits c.size from_.size = _
    rw [wadd_eq room, exact_.size, other.size]
    simp [transfer]
  batches := by
    intro b member
    rcases List.mem_append.mp member with left | right
    · exact exact_.batches b left
    · exact other.batches b right

theorem dequeueBatch_spec {b : QuarantineBatch} {c' : QuarantineCache} (exact_ : c.Exact word)
    (room : c.size < 2 ^ word.bits) (run : c.dequeueBatch word = (some b, c')) :
    b.Exact word ∧ c'.Exact word ∧ c.items = b.items + c'.items := by
  unfold dequeueBatch at run
  split at run
  · cases run
  · next first rest shape =>
    cases run
    have total := exact_.size
    rw [shape, List.map_cons, List.sum_cons] at total
    refine ⟨exact_.batches _ (by simp [shape]), ⟨?_, ?_⟩, ?_⟩
    · change wsub word.bits c.size _ = (rest.map QuarantineBatch.size).sum
      rw [wsub_eq room (by omega)]
      omega
    · intro other member
      exact exact_.batches other (by simp [shape, show other ∈ rest from member])
    · unfold items
      rw [shape, batchesItems_cons]

/-- The merge loop moves the chunks of a batch into the one before it, and the batch to those
that are to be deallocated. -/
theorem mergeLoop_spec (rest : List QuarantineBatch) :
    ∀ (current : QuarantineBatch) (extractedSize : Nat) (tmp : QuarantineCache),
      current.Exact word → (∀ b ∈ rest, b.Exact word) → tmp.Exact word →
      extractedSize ≤ tmp.size →
      current.size + (rest.map QuarantineBatch.size).sum + tmp.size < 2 ^ word.bits →
      let merged := mergeLoop word current rest extractedSize tmp
      (∀ b ∈ merged.1, b.Exact word) ∧ merged.2.2.Exact word ∧
        batchesItems merged.1 + merged.2.2.items =
          current.items + batchesItems rest + tmp.items ∧
        (merged.1.map QuarantineBatch.size).sum + merged.2.1 =
          extractedSize + current.size + (rest.map QuarantineBatch.size).sum := by
  induction rest with
  | nil =>
    intro current extractedSize tmp first _ tmpExact _ _
    dsimp only [mergeLoop]
    refine ⟨?_, tmpExact, by simp, by simp [Nat.add_comm]⟩
    intro b member
    rw [List.mem_singleton.mp member]
    exact first
  | cons next rest ih =>
    intro current extractedSize tmp first others tmpExact counted room
    rw [List.map_cons, List.sum_cons] at room
    have second := others next List.mem_cons_self
    have later : ∀ b ∈ rest, b.Exact word :=
      fun b member => others b (List.mem_cons_of_mem _ member)
    dsimp only
    by_cases fits : current.canMerge next = true
    · have least := second.sizeof_le
      have emptiedSize : (next.emptied word).size = sizeofBatch word := rfl
      have merged := QuarantineBatch.merge_exact first second fits (by omega)
      have mergedSize : (current.merge word next).size + sizeofBatch word =
          current.size + next.size := by
        have quarantined : next.getQuarantinedSize word = next.size - sizeofBatch word :=
          wsub_eq (by omega) least
        change wadd word.bits current.size (next.getQuarantinedSize word) + _ = _
        rw [quarantined, wadd_eq (by omega)]
        omega
      have tmpExact' := enqueueBatch_exact tmpExact (QuarantineBatch.emptied_exact word next)
        (by omega)
      have tmpSize : (tmp.enqueueBatch word (next.emptied word)).size =
          tmp.size + (next.emptied word).size := enqueueBatch_size (by omega)
      have extracted : wadd word.bits extractedSize (next.emptied word).size =
          extractedSize + sizeofBatch word := wadd_eq (by omega)
      obtain ⟨kept, tmpKept, items, sizes⟩ := ih (current.merge word next)
        (wadd word.bits extractedSize (next.emptied word).size)
        (tmp.enqueueBatch word (next.emptied word)) merged later tmpExact'
        (by omega) (by omega)
      rw [mergeLoop, if_pos fits]
      refine ⟨kept, tmpKept, ?_, ?_⟩
      · rw [items, enqueueBatch_items, batchesItems_cons]
        calc (current.merge word next).items + batchesItems rest +
              (tmp.items + (next.emptied word).items)
            = (current.merge word next).items + (next.emptied word).items +
                (batchesItems rest + tmp.items) := by abel
          _ = current.items + (next.items + batchesItems rest) + tmp.items := by
              rw [QuarantineBatch.merge_items]
              abel
      · rw [sizes, extracted, List.map_cons, List.sum_cons]
        omega
    · obtain ⟨kept, tmpKept, items, sizes⟩ := ih next extractedSize tmp second later tmpExact
        counted (by omega)
      rw [mergeLoop, if_neg fits]
      refine ⟨?_, tmpKept, ?_, ?_⟩
      · intro b member
        rcases List.mem_cons.mp member with rfl | old
        · exact first
        · exact kept b old
      · dsimp only
        rw [batchesItems_cons, batchesItems_cons, add_assoc, items]
        abel
      · simp only [List.map_cons, List.sum_cons]
        omega

theorem mergeBatches_spec (exact_ : c.Exact word) (tmpExact : tmp.Exact word)
    (room : c.size + tmp.size < 2 ^ word.bits) :
    (c.mergeBatches word tmp).1.Exact word ∧ (c.mergeBatches word tmp).2.Exact word ∧
      (c.mergeBatches word tmp).1.items + (c.mergeBatches word tmp).2.items =
        c.items + tmp.items := by
  have total := exact_.size
  unfold mergeBatches
  split
  · next none =>
    rw [none] at total
    have nothing : wsub word.bits c.size 0 = 0 := by
      rw [total]
      exact wsub_eq (Nat.two_pow_pos _) (le_refl _)
    refine ⟨⟨nothing, ?_⟩, tmpExact, ?_⟩
    · intro b member
      exact absurd member List.not_mem_nil
    · unfold items
      rw [none]
  · next current rest shape =>
    rw [shape, List.map_cons, List.sum_cons] at total
    obtain ⟨kept, tmpKept, items, sizes⟩ := mergeLoop_spec rest current 0 tmp
      (exact_.batches current (by simp [shape]))
      (fun b member => exact_.batches b (by simp [shape, member])) tmpExact (Nat.zero_le _)
      (by omega)
    refine ⟨⟨?_, kept⟩, tmpKept, ?_⟩
    · change wsub word.bits c.size _ = _
      rw [wsub_eq (by omega) (by omega)]
      dsimp only
      omega
    · change batchesItems _ + _ = batchesItems c.list + _
      rw [items, shape, batchesItems_cons]

/-- The extraction loop never meets an empty list, and stops at the limit. -/
theorem extractLoop_spec (minSize : Nat) (list : List QuarantineBatch) :
    ∀ (size : Nat) (tmp : QuarantineCache), (⟨list, size⟩ : QuarantineCache).Exact word →
      tmp.Exact word → size + tmp.size < 2 ^ word.bits →
      ∃ c' tmp', extractLoop word minSize list size tmp = some (c', tmp') ∧ c'.Exact word ∧
        tmp'.Exact word ∧ c'.items + tmp'.items = batchesItems list + tmp.items ∧
        c'.size ≤ minSize := by
  induction list with
  | nil =>
    intro size tmp exact_ tmpExact _
    have zero : size = 0 := exact_.size
    refine ⟨⟨[], size⟩, tmp, ?_, exact_, tmpExact, rfl, by simp [zero]⟩
    rw [extractLoop, if_neg (by omega)]
  | cons b rest ih =>
    intro size tmp exact_ tmpExact room
    have total : size = b.size + (rest.map QuarantineBatch.size).sum := by
      simpa using exact_.size
    have first := exact_.batches b List.mem_cons_self
    rw [extractLoop]
    by_cases large : minSize < size
    · rw [if_pos large]
      have remaining : wsub word.bits size b.size = (rest.map QuarantineBatch.size).sum := by
        rw [wsub_eq (by omega) (by omega)]
        omega
      have tmpSize : (tmp.enqueueBatch word b).size = tmp.size + b.size :=
        enqueueBatch_size (by omega)
      obtain ⟨c', tmp', run, exact', tmpExact', items, below⟩ :=
        ih (wsub word.bits size b.size) (tmp.enqueueBatch word b)
          ⟨remaining, fun other member => exact_.batches other (List.mem_cons_of_mem _ member)⟩
          (enqueueBatch_exact tmpExact first (by omega)) (by omega)
      refine ⟨c', tmp', run, exact', tmpExact', ?_, below⟩
      rw [items, enqueueBatch_items, batchesItems_cons]
      abel
    · rw [if_neg large]
      exact ⟨_, _, rfl, exact_, tmpExact, rfl, by simpa using large⟩

theorem mergeForRecycle_spec (exact_ : c.Exact word) (room : c.size < 2 ^ word.bits) :
    (c.mergeForRecycle word).1.Exact word ∧ (c.mergeForRecycle word).2.Exact word ∧
      (c.mergeForRecycle word).1.items + (c.mergeForRecycle word).2.items = c.items := by
  unfold mergeForRecycle
  dsimp only
  split_ifs
  · obtain ⟨merged, tmpExact, items⟩ := mergeBatches_spec exact_ empty_exact room
    exact ⟨merged, tmpExact, items.trans (add_zero _)⟩
  · exact ⟨exact_, empty_exact, add_zero _⟩

/-- The critical section of `recycle` ends, below the limit, and loses nothing. -/
theorem extractForRecycle_spec (minSize : Nat) (exact_ : c.Exact word)
    (room : c.size < 2 ^ word.bits) :
    ∃ c' tmp, c.extractForRecycle word minSize = some (c', tmp) ∧ c'.Exact word ∧ tmp.Exact word ∧
      c'.items + tmp.items = c.items ∧ c'.size ≤ minSize := by
  obtain ⟨merged, tmpExact, items⟩ := mergeForRecycle_spec exact_ room
  have sizes := congrArg (weight word) items
  rw [weight_add, merged.weight_eq, tmpExact.weight_eq, exact_.weight_eq] at sizes
  obtain ⟨c', tmp, run, exact', tmpExact', items', below⟩ :=
    extractLoop_spec minSize (c.mergeForRecycle word).1.list (c.mergeForRecycle word).1.size
      (c.mergeForRecycle word).2 merged tmpExact (by omega)
  exact ⟨c', tmp, run, exact', tmpExact', items'.trans items, below⟩

end QuarantineCache

end Scudo.Quarantine
