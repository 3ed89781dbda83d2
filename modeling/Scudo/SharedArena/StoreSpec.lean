import Scudo.SharedArena.FreeList

/-!
Insertion into the free list in three steps, each of which keeps the list in memory equal
to a list of spans: link the new block in, join it with its successor, join its
predecessor with it.
-/

namespace Scudo.SharedArena
open Scudo.Lib

namespace ArenaMemory

attribute [local simp] setPrev setNext setSize setMagic setBlock setHead setCount getFreeBlock
  Function.update_apply

section Fields

variable (m : ArenaMemory) (new pages prevOff nextOff y : Nat)

theorem insertBlock_next : (m.insertBlock new pages prevOff nextOff).nextPageOff y =
    if prevOff ≠ kFreeListEnd ∧ y = prevOff then new
    else if y = new then nextOff else m.nextPageOff y := by
  simp only [insertBlock]
  split_ifs <;> simp_all

theorem insertBlock_prev : (m.insertBlock new pages prevOff nextOff).prevPageOff y =
    if nextOff ≠ kFreeListEnd ∧ y = nextOff then new
    else if y = new then prevOff else m.prevPageOff y := by
  simp only [insertBlock]
  split_ifs <;> simp_all

theorem insertBlock_size : (m.insertBlock new pages prevOff nextOff).sizeInPages y =
    if y = new then pages else m.sizeInPages y := by
  simp only [insertBlock]
  split_ifs <;> simp_all

theorem insertBlock_magic : (m.insertBlock new pages prevOff nextOff).magic y =
    if y = new then kFreeBlockMagic else m.magic y := by
  simp only [insertBlock]
  split_ifs <;> simp_all

theorem insertBlock_hdr : (m.insertBlock new pages prevOff nextOff).hdr =
    { m.hdr with
      freeListHeadPageOff := if prevOff ≠ kFreeListEnd then m.hdr.freeListHeadPageOff else new
      freeCount := wadd 32 m.hdr.freeCount 1 } := by
  simp only [insertBlock]
  split_ifs <;> simp_all

end Fields

section Absorb

variable (m : ArenaMemory) (kept gone y : Nat)

theorem absorb_next : (m.absorb kept gone).nextPageOff y =
    if y = kept then m.nextPageOff gone else m.nextPageOff y := by
  simp only [absorb]
  split_ifs <;> simp_all

theorem absorb_prev : (m.absorb kept gone).prevPageOff y =
    if m.nextPageOff gone ≠ kFreeListEnd ∧ y = m.nextPageOff gone then kept
    else m.prevPageOff y := by
  simp only [absorb]
  split_ifs <;> simp_all

theorem absorb_size : (m.absorb kept gone).sizeInPages y =
    if y = kept then wadd 32 (m.sizeInPages kept) (m.sizeInPages gone) else m.sizeInPages y := by
  simp only [absorb]
  split_ifs <;> simp_all

theorem absorb_magic : (m.absorb kept gone).magic y = if y = gone then 0 else m.magic y := by
  simp only [absorb]
  split_ifs <;> simp_all

theorem absorb_hdr : (m.absorb kept gone).hdr =
    { m.hdr with freeCount := wsub 32 m.hdr.freeCount 1 } := by
  simp only [absorb]
  split_ifs <;> simp_all

end Absorb

end ArenaMemory

section Insert

variable {m : ArenaMemory} {left right : List Span} {x : Span} {total : Nat}

/-- Linking a block in between its neighbours. -/
theorem FreeListAt.insertBlock (list : FreeListAt m (left ++ right))
    (fits : Fits total (left ++ x :: right)) (ordered : Ordered (left ++ x :: right)) :
    FreeListAt (m.insertBlock x.start x.len ((starts left).getLastD kFreeListEnd)
      ((starts right).headD kFreeListEnd)) (left ++ x :: right) := by
  have nodup := fits.nodup ordered
  have proper := fits.proper
  have count := fits.length_le ordered
  have small := fits.total_lt
  rw [starts_append, starts_cons] at nodup proper
  have middle := List.nodup_middle.mp nodup
  have fresh : ∀ off ∈ starts left ++ starts right, off ≠ x.start :=
    fun off member same => (List.nodup_cons.mp middle).1 (same ▸ member)
  have properOld : ∀ off ∈ starts left ++ starts right, off ≠ kFreeListEnd :=
    fun off member => proper off (by simp at member ⊢; tauto)
  have properX : x.start ≠ kFreeListEnd := proper _ (by simp)
  have prevNe : x.start ≠ (starts left).getLastD kFreeListEnd := by
    rcases getLastD_cases (starts left) kFreeListEnd with none | some
    · rwa [none]
    · exact (fresh _ (List.mem_append_left _ some)).symm
  have nextNe : x.start ≠ (starts right).headD kFreeListEnd := by
    rcases headD_cases (starts right) kFreeListEnd with none | some
    · rwa [none]
    · exact (fresh _ (List.mem_append_right _ some)).symm
  have linked := list.linked
  rw [starts_append] at linked
  constructor
  · rw [ArenaMemory.insertBlock_hdr, list.head]
    rcases List.eq_nil_or_concat' left with rfl | ⟨front, p, rfl⟩
    · simp
    · have ne : p.start ≠ kFreeListEnd := properOld _ (by simp)
      have nonempty : front ++ [p] ≠ [] := by simp
      rw [headD_starts_append nonempty, headD_starts_append nonempty, getLastD_starts_concat,
        if_pos ne]
  · rw [ArenaMemory.insertBlock_hdr]
    simp only [list.count, List.length_append, List.length_cons] at count ⊢
    unfold kFreeListEnd at small
    rw [wadd_eq (by omega)]
    omega
  · rw [starts_append, starts_cons]
    refine linked.insert ?_ ?_ (Reseamed.of_writes middle.of_cons properOld ?_ ?_ ?_ ?_)
    · rw [ArenaMemory.insertBlock_next, if_neg (fun both => prevNe both.2), if_pos rfl]
    · rw [ArenaMemory.insertBlock_prev, if_neg (fun both => nextNe both.2), if_pos rfl]
    · intro off member same
      rw [ArenaMemory.insertBlock_next, if_pos ⟨same ▸ properOld off member, same⟩]
    · intro off member same
      rw [ArenaMemory.insertBlock_prev, if_pos ⟨same ▸ properOld off member, same⟩]
    · intro off member other
      rw [ArenaMemory.insertBlock_next, if_neg (fun both => other both.2), if_neg (fresh off member)]
    · intro off member other
      rw [ArenaMemory.insertBlock_prev, if_neg (fun both => other both.2), if_neg (fresh off member)]
  · intro b member
    rw [ArenaMemory.insertBlock_size]
    rcases mem_middle_cases member with rfl | old
    · rw [if_pos rfl]
    · rw [if_neg (fresh _ (starts_append left right ▸ start_mem old)), list.size b old]
  · intro b member
    rw [ArenaMemory.insertBlock_magic]
    rcases mem_middle_cases member with rfl | old
    · rw [if_pos rfl]
    · rw [if_neg (fresh _ (starts_append left right ▸ start_mem old)), list.magic b old]

/-- Joining two neighbours that touch. -/
theorem FreeListAt.absorb {a b : Span} (list : FreeListAt m (left ++ a :: b :: right))
    (fits : Fits total (left ++ a :: b :: right)) (ordered : Ordered (left ++ a :: b :: right))
    (touch : a.stop = b.start) :
    FreeListAt (m.absorb a.start b.start) (left ++ a.join b :: right) := by
  have nodup := fits.nodup ordered
  have proper := fits.proper
  have linked := list.linked
  have nextB : m.nextPageOff b.start = (starts right).headD kFreeListEnd :=
    (show FreeListAt m ((left ++ [a]) ++ b :: right) by simpa using list).next_eq
  have endB := fits.stop_le b (by simp)
  have small := fits.total_lt
  have shape : starts (left ++ a :: b :: right) =
      (starts left ++ [a.start]) ++ b.start :: starts right := by simp
  rw [shape] at nodup proper linked
  have middle := List.nodup_middle.mp nodup
  have fresh : ∀ off ∈ (starts left ++ [a.start]) ++ starts right, off ≠ b.start :=
    fun off member same => (List.nodup_cons.mp middle).1 (same ▸ member)
  have properOld : ∀ off ∈ (starts left ++ [a.start]) ++ starts right, off ≠ kFreeListEnd :=
    fun off member => proper off (by simp at member ⊢; tauto)
  have differ : a.start ≠ b.start := fresh _ (by simp)
  have keptOnly : ∀ c ∈ left ++ right, c.start ≠ a.start := by
    intro c member same
    have distinct := List.nodup_middle.mp (show (starts left ++ a.start :: starts right).Nodup by
      simpa using middle.of_cons)
    exact (List.nodup_cons.mp distinct).1 (same ▸ starts_append left right ▸ start_mem member)
  have others : ∀ c ∈ left ++ right, c ∈ left ++ a :: b :: right := by
    intro c member
    simp at member ⊢
    tauto
  constructor
  · rw [ArenaMemory.absorb_hdr]
    have head := list.head
    rcases left with - | ⟨first, rest⟩ <;> simpa using head
  · rw [ArenaMemory.absorb_hdr]
    have count := list.count
    have bound := fits.length_le ordered
    simp only [List.length_append, List.length_cons] at count bound ⊢
    unfold kFreeListEnd at small
    rw [count, wsub_eq (by omega) (by omega)]
    omega
  · have seam : Reseamed m.nextPageOff m.prevPageOff (m.absorb a.start b.start).nextPageOff
        (m.absorb a.start b.start).prevPageOff (starts left ++ [a.start]) (starts right)
        ((starts right).headD kFreeListEnd) a.start := by
      apply Reseamed.of_writes middle.of_cons properOld
      · intro off _ same
        rw [ArenaMemory.absorb_next, if_pos (by simpa using same), nextB]
      · intro off member same
        rw [ArenaMemory.absorb_prev, nextB, if_pos ⟨same ▸ properOld off member, same⟩]
      · intro off _ other
        rw [ArenaMemory.absorb_next, if_neg (by simpa using other)]
      · intro off _ other
        rw [ArenaMemory.absorb_prev, nextB, if_neg (fun both => other both.2)]
    have erased : Linked (m.absorb a.start b.start).nextPageOff
        (m.absorb a.start b.start).prevPageOff kFreeListEnd
        ((starts left ++ [a.start]) ++ starts right) kFreeListEnd :=
      linked.erase (by simpa using seam)
    simpa [Span.join] using erased
  · intro c member
    rw [ArenaMemory.absorb_size]
    rcases mem_middle_cases member with rfl | old
    · have stopB : b.stop = b.start + b.len := rfl
      have stopA : a.stop = a.start + a.len := rfl
      unfold kFreeListEnd at small
      rw [show (a.join b).start = a.start from rfl, if_pos rfl, list.size a (by simp),
        list.size b (by simp), wadd_eq (by omega)]
      rfl
    · rw [if_neg (keptOnly c old), list.size c (others c old)]
  · intro c member
    rw [ArenaMemory.absorb_magic]
    rcases mem_middle_cases member with rfl | old
    · rw [show (a.join b).start = a.start from rfl, if_neg differ, list.magic a (by simp)]
    · have notGone : c.start ≠ b.start := by
        apply fresh
        have inStarts := start_mem old
        rw [starts_append] at inStarts
        simp only [List.mem_append, List.mem_singleton] at inStarts ⊢
        tauto
      rw [if_neg notGone, list.magic c (others c old)]

theorem Fits.join {a b : Span} (fits : Fits total (left ++ a :: b :: right))
    (touch : a.stop = b.start) : Fits total (left ++ a.join b :: right) := by
  refine ⟨fits.total_lt, ?_, ?_⟩
  · intro c member
    rcases mem_middle_cases member with rfl | old
    · exact Nat.add_pos_left (fits.nonempty a (by simp)) _
    · exact fits.nonempty c (by simp at old ⊢; tauto)
  · intro c member
    rcases mem_middle_cases member with rfl | old
    · rw [Span.join_stop touch]
      exact fits.stop_le b (by simp)
    · exact fits.stop_le c (by simp at old ⊢; tauto)

theorem Ordered.join {a b : Span} (ordered : Ordered (left ++ a :: b :: right))
    (touch : a.stop = b.start) : Ordered (left ++ a.join b :: right) := by
  unfold Ordered at ordered ⊢
  rw [List.pairwise_append, List.pairwise_cons, List.pairwise_cons] at ordered
  rw [List.pairwise_append, List.pairwise_cons]
  obtain ⟨orderedLeft, ⟨_, afterB, orderedRight⟩, across⟩ := ordered
  refine ⟨orderedLeft, ⟨?_, orderedRight⟩, ?_⟩
  · intro c member
    rw [Span.join_stop touch]
    exact afterB c member
  · intro c memberC d memberD
    rcases List.mem_cons.mp memberD with rfl | later
    · exact across c memberC a List.mem_cons_self
    · exact across c memberC d (by simp [later])

/-- Joining the new block with its successor computes `joinNext`. -/
theorem FreeListAt.mergeNext (list : FreeListAt m (left ++ x :: right))
    (fits : Fits total (left ++ x :: right)) (ordered : Ordered (left ++ x :: right)) :
    FreeListAt (m.mergeNext x.start x.len ((starts right).headD kFreeListEnd))
        (left ++ joinNext x right) ∧
      Fits total (left ++ joinNext x right) ∧ Ordered (left ++ joinNext x right) := by
  have endX : x.start + x.len ≤ total := fits.stop_le x (by simp)
  have small := fits.total_lt
  have sum : wadd 32 x.start x.len = x.stop := by
    unfold kFreeListEnd at small
    exact wadd_eq (by omega)
  unfold ArenaMemory.mergeNext
  rw [sum]
  rcases joinNext_cases x right with ⟨same, apart⟩ | ⟨y, rest, rfl, touch, joined⟩
  · rw [same, if_neg]
    · exact ⟨list, fits, ordered⟩
    · rintro ⟨proper, touch⟩
      cases right with
      | nil => exact proper rfl
      | cons y rest => exact apart y rfl touch
  · have proper : y.start ≠ kFreeListEnd := fits.start_ne (by simp)
    rw [joined, starts_cons, List.headD_cons, if_pos ⟨proper, touch⟩]
    exact ⟨list.absorb fits ordered touch, fits.join touch, ordered.join touch⟩

/-- Joining the predecessor with the new block computes `joinPrev`. -/
theorem FreeListAt.mergePrev (list : FreeListAt m (left ++ x :: right))
    (fits : Fits total (left ++ x :: right)) (ordered : Ordered (left ++ x :: right)) :
    FreeListAt (m.mergePrev x.start ((starts left).getLastD kFreeListEnd))
      (joinPrev left (x :: right)) := by
  unfold ArenaMemory.mergePrev
  have sum : ∀ p ∈ left, wadd 32 p.start (m.sizeInPages p.start) = p.stop := by
    intro p member
    have endP : p.start + p.len ≤ total := fits.stop_le p (by simp [member])
    have small := fits.total_lt
    unfold kFreeListEnd at small
    rw [list.size p (by simp [member])]
    exact wadd_eq (by omega)
  rcases joinPrev_cases left (x :: right) with
    ⟨same, apart⟩ | ⟨front, p, y, rest, rfl, shape, touch, joined⟩
  · rw [same]
    rcases List.eq_nil_or_concat' left with rfl | ⟨front, p, rfl⟩
    · simpa using list
    · have separate : p.stop ≠ x.start := apart p x (by simp) rfl
      have proper : p.start ≠ kFreeListEnd := fits.start_ne (by simp)
      rw [getLastD_starts_concat, if_pos proper, sum p (by simp), if_neg separate]
      exact list
  · obtain ⟨rfl, rfl⟩ := List.cons_eq_cons.mp shape
    have proper : p.start ≠ kFreeListEnd := fits.start_ne (by simp)
    rw [joined, getLastD_starts_concat, if_pos proper, sum p (by simp), if_pos touch]
    rw [List.append_assoc] at list fits ordered
    exact list.absorb fits ordered touch

end Insert

/-- The memory represents the bookkeeping `e`. -/
structure Represents (m : ArenaMemory) {capacity : Nat} (e : Extents capacity) : Prop where
  total : m.hdr.totalDataPages = capacity
  bump : m.hdr.bumpOffsetInPages = e.bump
  free : FreeListAt m e.free

theorem fits_free {capacity : Nat} (small : capacity < kFreeListEnd) (e : Extents capacity) :
    Fits capacity e.free :=
  ⟨small, fun b member => e.nonempty b (List.mem_append_left _ member),
    fun b member => (e.inside b (List.mem_append_left _ member)).trans e.bounded⟩

namespace ArenaMemory

variable (m : ArenaMemory)

theorem mergeNext_total (newPageOff newPages nextOff : Nat) :
    (m.mergeNext newPageOff newPages nextOff).hdr.totalDataPages = m.hdr.totalDataPages := by
  unfold mergeNext
  split_ifs <;> simp [absorb_hdr]

theorem mergeNext_bump (newPageOff newPages nextOff : Nat) :
    (m.mergeNext newPageOff newPages nextOff).hdr.bumpOffsetInPages = m.hdr.bumpOffsetInPages := by
  unfold mergeNext
  split_ifs <;> simp [absorb_hdr]

theorem mergePrev_total (newPageOff prevOff : Nat) :
    (m.mergePrev newPageOff prevOff).hdr.totalDataPages = m.hdr.totalDataPages := by
  unfold mergePrev
  split_ifs <;> simp [absorb_hdr]

theorem mergePrev_bump (newPageOff prevOff : Nat) :
    (m.mergePrev newPageOff prevOff).hdr.bumpOffsetInPages = m.hdr.bumpOffsetInPages := by
  unfold mergePrev
  split_ifs <;> simp [absorb_hdr]

end ArenaMemory

/-- `insertFree` refines `Extents.giveBack`: it ends, finds no corrupt block, and leaves the
represented free list with the block merged in. -/
theorem Represents.insertFree {m : ArenaMemory} {capacity : Nat} {e : Extents capacity}
    (small : capacity < kFreeListEnd) (rep : Represents m e) {x : Span} (held : x ∈ e.held) :
    ∃ m', m.insertFree x.start x.len = some m' ∧ Represents m' (e.giveBack x held) := by
  have fits := fits_free small e
  have total := rep.total
  have nonempty : ∀ s ∈ x :: e.free, 0 < s.len := by
    intro s member
    apply e.nonempty s
    rcases List.mem_cons.mp member with rfl | free
    · exact List.mem_append_right _ held
    · exact List.mem_append_left _ free
  have single : ∀ p, load (x :: e.free) p ≤ 1 := by
    intro p
    have once := e.single p
    rw [load_perm (e.perm_erase held), load_append] at once
    omega
  let left := upTo x.start e.free
  let right := beyond x.start e.free
  have split : left ++ right = e.free := upTo_append_beyond x.start e.free
  have fitsNew : Fits capacity (left ++ x :: right) := by
    refine ⟨small, ?_, ?_⟩
    · intro c member
      rcases mem_middle_cases member with rfl | old
      · exact nonempty _ List.mem_cons_self
      · exact fits.nonempty c (split ▸ old)
    · intro c member
      rcases mem_middle_cases member with rfl | old
      · exact (e.inside _ (List.mem_append_right _ held)).trans e.bounded
      · exact fits.stop_le c (split ▸ old)
  have orderedNew : Ordered (left ++ x :: right) := by
    have ordered := ordered_of_gap e.sorted
    rw [← split] at ordered
    obtain ⟨orderedLeft, orderedRight, across⟩ := List.pairwise_append.mp ordered
    refine List.pairwise_append.mpr ⟨orderedLeft, List.Pairwise.cons ?_ orderedRight, ?_⟩
    · intro c member
      exact stop_le_of_beyond e.sorted nonempty single member
    · intro c memberC d memberD
      rcases List.mem_cons.mp memberD with rfl | later
      · exact stop_le_of_upTo nonempty single memberC
      · exact across c memberC d later
  have old : FreeListAt m (left ++ right) := split ▸ rep.free
  have enough : e.free.length < m.walkFuel := by
    have count := fits.length_le (ordered_of_gap e.sorted)
    unfold ArenaMemory.walkFuel
    omega
  have point := rep.free.findInsertPoint_eq x.start (total ▸ fits) m.walkFuel enough
  have inserted := old.insertBlock fitsNew orderedNew
  obtain ⟨merged, fitsMerged, orderedMerged⟩ := inserted.mergeNext fitsNew orderedNew
  obtain ⟨y, rest, shape, start⟩ := joinNext_shape x right
  rw [shape] at merged fitsMerged orderedMerged
  have final := merged.mergePrev fitsMerged orderedMerged
  rw [start, ← shape] at final
  refine ⟨_, by simp only [ArenaMemory.insertFree, point]; rfl, ?_, ?_, final⟩
  · rw [ArenaMemory.mergePrev_total, ArenaMemory.mergeNext_total,
      ArenaMemory.insertBlock_hdr]
    exact rep.total
  · rw [ArenaMemory.mergePrev_bump, ArenaMemory.mergeNext_bump,
      ArenaMemory.insertBlock_hdr]
    exact rep.bump

end Scudo.SharedArena
