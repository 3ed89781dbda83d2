import Mathlib.Data.List.Range
import Scudo.Secondary.CacheSpec
import Scudo.Secondary.InUse

/-!
The entry array of `MapAllocatorCache` and the two lists that share its links: `LRUEntries`,
linked both ways, and `AvailEntries`, linked one way. A slot is named by one more than its
index, so that 0 is both the null pointer and `EndOfListVal`; the array has at most
`CacheIndexMax` slots, so no index is cut off in a link.
-/

namespace Scudo.Secondary
open Scudo.Lib

namespace InUseBlocks

/-- `push_front`. -/
def pushFront (l : Links) (list : InUseBlocks) (x : Nat) : Links × InUseBlocks :=
  let l := l.setPrev x 0
  let l := if list.empty then l else l.setPrev list.first x
  (l.setNext x list.first,
    { first := x, last := if list.empty then x else list.last, size := list.size + 1 })

end InUseBlocks

/-- `SinglyLinkedList`, as the list of unused slots. -/
structure AvailEntries where
  first : Nat
  last : Nat
  size : Nat
  deriving DecidableEq, Repr

namespace AvailEntries

def empty (list : AvailEntries) : Bool := list.size == 0

/-- `push_back`. -/
def pushBack (l : Links) (list : AvailEntries) (x : Nat) : Links × AvailEntries :=
  let l := l.setNext x 0
  (if list.empty then l else l.setNext list.last x,
    { first := if list.empty then x else list.first, last := x, size := list.size + 1 })

/-- `push_front`. -/
def pushFront (l : Links) (list : AvailEntries) (x : Nat) : Links × AvailEntries :=
  (l.setNext x list.first,
    { first := x, last := if list.empty then x else list.last, size := list.size + 1 })

/-- `pop_front`. -/
def popFront (l : Links) (list : AvailEntries) : AvailEntries :=
  { first := l.next list.first
    last := if l.next list.first = 0 then 0 else list.last
    size := list.size - 1 }

/-- The links form a list of exactly these slots. -/
structure Holds (l : Links) (list : AvailEntries) (free : List Nat) : Prop where
  chained : Chained l.next free 0
  first : list.first = free.headD 0
  last : list.last = free.getLastD 0
  size : list.size = free.length

end AvailEntries

/-- The entries by slot, their links and the two lists. -/
structure Slots where
  entries : Nat → CachedBlock
  links : Links
  lruEntries : InUseBlocks
  availEntries : AvailEntries

namespace Slots

/-- The slots that a walk over `LRUEntries` meets. -/
def lru (s : Slots) : List Nat :=
  InUseBlocks.chain s.links (s.lruEntries.size + 1) s.lruEntries.first

/-- The slots that a walk over `AvailEntries` would meet. -/
def avail (s : Slots) : List Nat :=
  InUseBlocks.chain s.links (s.availEntries.size + 1) s.availEntries.first

/-- `insert`, `none` where `AvailEntries` has no front. The assignment copies the links of the
entry too, which `push_front` overwrites. -/
def insert (s : Slots) (entry : CachedBlock) : Option Slots :=
  let availEntry := s.availEntries.first
  if availEntry = 0 then none
  else
    let availEntries := s.availEntries.popFront s.links
    let pushed := s.lruEntries.pushFront s.links availEntry
    some
      { entries := Function.update s.entries availEntry entry
        links := pushed.1
        lruEntries := pushed.2
        availEntries := availEntries }

/-- `remove`, `none` where a `CHECK` fails. -/
def remove (s : Slots) (slot : Nat) : Option Slots :=
  match s.lruEntries.remove s.links slot with
  | none => none
  | some (links, lruEntries) =>
    let pushed := s.availEntries.pushFront links slot
    some
      { entries := Function.update s.entries slot (s.entries slot).invalidate
        links := pushed.1
        lruEntries := lruEntries
        availEntries := pushed.2 }

/-- The end of `init`: all slots become available. -/
def init (entriesArraySize : Nat) (links : Links) : Slots :=
  let avail := (List.range' 1 entriesArraySize).foldl
    (fun (l : Links × AvailEntries) slot => l.2.pushBack l.1 slot) (links, ⟨0, 0, 0⟩)
  { entries := fun _ => CachedBlock.empty
    links := avail.1
    lruEntries := ⟨0, 0, 0⟩
    availEntries := avail.2 }

/-- The lists hold these slots, and every slot of the array once. -/
structure Tracks (s : Slots) (entriesArraySize : Nat) (live free : List Nat) : Prop where
  lru : InUseBlocks.Holds s.links s.lruEntries live
  avail : AvailEntries.Holds s.links s.availEntries free
  all : (live ++ free).Perm (List.range' 1 entriesArraySize)

end Slots

section Lists

variable {l l' : Links} {live free : List Nat} {x : Nat}

namespace InUseBlocks

variable {list : InUseBlocks}

/-- `push_front` writes both links of the new node and the previous link of the first one. -/
theorem pushFront_next (l : Links) (list : InUseBlocks) (x y : Nat) :
    (pushFront l list x).1.next y = if y = x then list.first else l.next y := by
  unfold pushFront Links.setPrev Links.setNext
  cases empty : list.empty with
  | true => simp [Function.update_apply]
  | false => simp [Function.update_apply]

theorem pushFront_prev (l : Links) (list : InUseBlocks) (x y : Nat) :
    (pushFront l list x).1.prev y =
      if list.empty = false ∧ y = list.first then x else if y = x then 0 else l.prev y := by
  unfold pushFront Links.setPrev Links.setNext
  cases empty : list.empty with
  | true => simp [Function.update_apply]
  | false => simp [Function.update_apply]

theorem pushFront_holds (holds : Holds l list live) (fresh : x ∉ live) (nonzero : x ≠ 0) :
    Holds (pushFront l list x).1 (pushFront l list x).2 (x :: live) := by
  have different : ∀ y ∈ live, y ≠ x := by
    rintro y member rfl
    exact fresh member
  have notFirst : ¬(list.empty = false ∧ x = list.first) := by
    rintro ⟨filled, same⟩
    rw [holds.first] at same
    cases live with
    | nil =>
      rw [holds.empty_iff.mpr rfl] at filled
      cases filled
    | cons y rest => exact different y List.mem_cons_self same.symm
  constructor
  · refine ⟨?_, ?_, ?_⟩
    · rw [pushFront_prev, if_neg notFirst, if_pos rfl]
    · rw [pushFront_next, if_pos rfl]
      exact holds.first
    · apply holds.linked.retarget_prev
      · intro y member
        have nodup := holds.nodup
        have notHead : y ≠ list.first := by
          rw [holds.first]
          cases live with
          | nil => cases member
          | cons z rest =>
            rintro rfl
            exact (List.nodup_cons.mp nodup).1 member
        rw [pushFront_prev, if_neg (fun both => notHead both.2),
          if_neg (different y (List.mem_of_mem_tail member))]
      · intro y isFirst
        have shape : list.first = y := by
          rw [holds.first]
          cases live with
          | nil => cases isFirst
          | cons z rest => simpa using isFirst
        have filled : list.empty = false := by
          rw [← Bool.not_eq_true, holds.empty_iff]
          rintro rfl
          cases isFirst
        rw [pushFront_prev, if_pos ⟨filled, shape.symm⟩]
      · intro y member
        rw [pushFront_next, if_neg (different y member)]
  · rfl
  · unfold pushFront
    cases live with
    | nil => simp [holds.empty_iff.mpr rfl]
    | cons y rest =>
      have filled : list.empty = false := by
        rw [← Bool.not_eq_true, holds.empty_iff]
        exact List.cons_ne_nil y rest
      simpa [filled] using holds.last
  · simp [pushFront, holds.size]
  · exact List.nodup_cons.mpr ⟨fresh, holds.nodup⟩
  · intro y member
    rcases List.mem_cons.mp member with rfl | old
    · exact nonzero
    · exact holds.proper y old

end InUseBlocks

namespace AvailEntries

variable {list : AvailEntries}

theorem Holds.congr (holds : Holds l list free) (next : ∀ y ∈ free, l'.next y = l.next y) :
    Holds l' list free :=
  { holds with chained := holds.chained.congr next }

theorem Holds.empty_iff (holds : Holds l list free) : list.empty = true ↔ free = [] := by
  unfold AvailEntries.empty
  rw [holds.size, beq_iff_eq, List.length_eq_zero_iff]

theorem pushFront_holds (holds : Holds l list free) (fresh : x ∉ free) :
    Holds (pushFront l list x).1 (pushFront l list x).2 (x :: free) := by
  have same : ∀ y ∈ free, (pushFront l list x).1.next y = l.next y := by
    intro y member
    apply Function.update_of_ne
    rintro rfl
    exact fresh member
  constructor
  · refine ⟨?_, holds.chained.congr same⟩
    rw [← holds.first]
    exact Function.update_self _ _ _
  · rfl
  · unfold pushFront
    cases free with
    | nil => simp [holds.empty_iff.mpr rfl]
    | cons y rest =>
      have filled : list.empty = false := by
        rw [← Bool.not_eq_true, holds.empty_iff]
        exact List.cons_ne_nil y rest
      simpa [filled] using holds.last
  · simp [pushFront, holds.size]

theorem popFront_holds (holds : Holds l list (x :: free)) (proper : ∀ y ∈ free, y ≠ 0) :
    Holds l (popFront l list) free := by
  have next : l.next list.first = free.headD 0 := by
    rw [holds.first]
    exact holds.chained.1
  constructor
  · exact holds.chained.2
  · exact next
  · unfold popFront
    dsimp only
    rw [next, holds.last]
    cases free with
    | nil => rfl
    | cons y rest =>
      rw [List.headD_cons, if_neg (proper y List.mem_cons_self), List.getLastD_cons,
        List.getLastD_cons, List.getLastD_cons]
  · simp [popFront, holds.size]

theorem pushBack_next (l : Links) (list : AvailEntries) (x y : Nat) :
    (pushBack l list x).1.next y =
      if list.empty = false ∧ y = list.last then x else if y = x then 0 else l.next y := by
  unfold pushBack Links.setNext
  cases empty : list.empty with
  | true => simp [Function.update_apply]
  | false => simp [Function.update_apply]

theorem pushBack_holds (holds : Holds l list free) (fresh : x ∉ free) (nodup : free.Nodup) :
    Holds (pushBack l list x).1 (pushBack l list x).2 (free ++ [x]) := by
  have filled : ∀ y ∈ free, list.empty = false := by
    intro y member
    rw [← Bool.not_eq_true, holds.empty_iff]
    rintro rfl
    cases member
  have lastOf : ∀ y, free.getLast? = some y → y ∈ free ∧ y = list.last := by
    intro y isLast
    refine ⟨List.mem_of_getLast? isLast, ?_⟩
    rw [holds.last, List.getLastD_eq_getLast?, isLast]
    rfl
  constructor
  · apply holds.chained.concat
    · rw [pushBack_next, if_neg, if_pos rfl]
      rintro ⟨notEmpty, same⟩
      rcases List.eq_nil_or_concat' free with rfl | ⟨front, y, rfl⟩
      · rw [holds.empty_iff.mpr rfl] at notEmpty
        cases notEmpty
      · rw [holds.last, List.getLastD_concat] at same
        exact fresh (by simp [same])
    · intro y isLast
      obtain ⟨member, last⟩ := lastOf y isLast
      rw [pushBack_next, if_pos ⟨filled y member, last⟩]
    · intro y member
      rcases List.eq_nil_or_concat' free with rfl | ⟨front, z, rfl⟩
      · cases member
      · rw [List.dropLast_concat] at member
        have inside : y ∈ front ++ [z] := List.mem_append_left _ member
        have notLast : y ≠ list.last := by
          rw [holds.last, List.getLastD_concat]
          exact (List.nodup_append.mp nodup).2.2 y member z (by simp)
        have notNew : y ≠ x := by
          rintro rfl
          exact fresh inside
        rw [pushBack_next, if_neg (fun both => notLast both.2), if_neg notNew]
  · unfold pushBack
    cases free with
    | nil => simp [holds.empty_iff.mpr rfl]
    | cons y rest => simpa [filled y List.mem_cons_self] using holds.first
  · simp [pushBack]
  · simp [pushBack, holds.size]

end AvailEntries

end Lists

namespace Slots

variable {s s' : Slots} {entriesArraySize slot : Nat} {live free left right : List Nat}

theorem Tracks.proper (tracks : s.Tracks entriesArraySize live free) :
    ∀ x ∈ live ++ free, x ≠ 0 := by
  intro x member
  have inRange := tracks.all.mem_iff.mp member
  rw [List.mem_range'_1] at inRange
  omega

theorem Tracks.nodup (tracks : s.Tracks entriesArraySize live free) : (live ++ free).Nodup :=
  tracks.all.nodup_iff.mpr List.nodup_range'

theorem Tracks.length_eq (tracks : s.Tracks entriesArraySize live free) :
    live.length + free.length = entriesArraySize := by
  have total := tracks.all.length_eq
  rwa [List.length_append, List.length_range'] at total

/-- Both walks meet the slots of their list. -/
theorem Tracks.lru_eq (tracks : s.Tracks entriesArraySize live free) : s.lru = live := by
  unfold Slots.lru
  rw [tracks.lru.first]
  apply InUseBlocks.Chained.chain_eq tracks.lru.linked.chained tracks.lru.proper
  rw [tracks.lru.size]
  exact Nat.lt_succ_self _

theorem Tracks.avail_eq (tracks : s.Tracks entriesArraySize live free) : s.avail = free := by
  unfold Slots.avail
  rw [tracks.avail.first]
  apply InUseBlocks.Chained.chain_eq tracks.avail.chained
  · exact fun x member => tracks.proper x (List.mem_append_right _ member)
  · rw [tracks.avail.size]
    exact Nat.lt_succ_self _

/-- `insert` takes the first available slot, writes it and makes it the newest entry. -/
theorem Tracks.insert (tracks : s.Tracks entriesArraySize live (slot :: free))
    (entry : CachedBlock) :
    ∃ s', s.insert entry = some s' ∧ s'.Tracks entriesArraySize (slot :: live) free ∧
      s'.entries = Function.update s.entries slot entry := by
  have first : s.availEntries.first = slot := tracks.avail.first
  have nonzero : slot ≠ 0 := tracks.proper slot (by simp)
  have nodup := tracks.nodup
  have middle : (live ++ slot :: free).Perm (slot :: live ++ free) := List.perm_middle
  have fresh : slot ∉ live ++ free := (List.nodup_cons.mp (middle.nodup_iff.mp nodup)).1
  have notLive : slot ∉ live := fun member => fresh (List.mem_append_left _ member)
  unfold Slots.insert
  dsimp only
  rw [first, if_neg nonzero]
  refine ⟨_, rfl, ⟨?_, ?_, middle.symm.trans tracks.all⟩, rfl⟩
  · exact InUseBlocks.pushFront_holds tracks.lru notLive nonzero
  · apply (AvailEntries.popFront_holds tracks.avail _).congr
    · intro y member
      rw [InUseBlocks.pushFront_next, if_neg]
      rintro rfl
      exact fresh (List.mem_append_right _ member)
    · exact fun y member => tracks.proper y (by simp [member])

/-- `remove` takes a slot out of the list, invalidates it and makes it available. -/
theorem Tracks.remove (tracks : s.Tracks entriesArraySize (left ++ slot :: right) free) :
    ∃ s', s.remove slot = some s' ∧ s'.Tracks entriesArraySize (left ++ right) (slot :: free) ∧
      s'.entries = Function.update s.entries slot (s.entries slot).invalidate := by
  have nodup := tracks.nodup
  have moved : (left ++ slot :: right ++ free).Perm (left ++ right ++ slot :: free) :=
    (List.perm_middle.append_right free).trans List.perm_middle.symm
  have nodup' := moved.nodup_iff.mp nodup
  have notFree : slot ∉ free :=
    (List.nodup_cons.mp (List.nodup_append.mp nodup').2.1).1
  unfold Slots.remove
  rw [InUseBlocks.remove_eq tracks.lru]
  refine ⟨_, rfl, ⟨?_, ?_, moved.symm.trans tracks.all⟩, rfl⟩
  · apply (InUseBlocks.unlink_holds tracks.lru).congr
    · intro y member
      apply Function.update_of_ne
      rintro rfl
      exact (List.nodup_append.mp nodup').2.2 y member y List.mem_cons_self rfl
    · exact fun y _ => rfl
  · apply AvailEntries.pushFront_holds _ notFree
    apply tracks.avail.congr
    intro y member
    rw [InUseBlocks.unlink_next, if_neg]
    rintro ⟨there, same⟩
    -- the node before the slot is in the list and so not available
    have inLeft : left.getLastD 0 ∈ left := by
      rcases List.eq_nil_or_concat' left with rfl | ⟨front, p, rfl⟩
      · exact absurd rfl there
      · simp
    rw [← same] at inLeft
    exact (List.nodup_append.mp nodup).2.2 y (List.mem_append_left _ inLeft) y member rfl

/-- After `init` every slot is available. -/
theorem init_tracks (entriesArraySize : Nat) (links : Links) :
    (init entriesArraySize links).Tracks entriesArraySize [] (List.range' 1 entriesArraySize) := by
  have pushed : ∀ n, AvailEntries.Holds
      ((List.range' 1 n).foldl (fun (l : Links × AvailEntries) slot => l.2.pushBack l.1 slot)
        (links, ⟨0, 0, 0⟩)).1
      ((List.range' 1 n).foldl (fun (l : Links × AvailEntries) slot => l.2.pushBack l.1 slot)
        (links, ⟨0, 0, 0⟩)).2 (List.range' 1 n) := by
    intro n
    induction n with
    | zero => exact ⟨trivial, rfl, rfl, rfl⟩
    | succ n ih =>
      rw [List.range'_1_concat, List.foldl_append]
      apply AvailEntries.pushBack_holds ih
      · rw [List.mem_range'_1]
        omega
      · exact List.nodup_range'
  exact ⟨InUseBlocks.holds_nil _, pushed entriesArraySize, List.Perm.refl _⟩

end Slots

end Scudo.Secondary
