import Scudo.Intrusive.Lists

/-!
One operation on a list that is linked both ways. Read through `LinkOp`, the operations are those
on lists of pointers, and a list that holds a sequence of nodes holds the changed sequence
afterwards.
-/

namespace Scudo.Intrusive
open Scudo.Lib
open Scudo.Secondary (Links InUseBlocks)

variable {nodes : Links} {list : IntrusiveList} {seq left right : List Nat} {x y prev : Nat}

namespace DoublyLinkedList

/-- The links form a list of exactly these nodes, in both directions. -/
structure Holds (nodes : Links) (list : IntrusiveList) (seq : List Nat) : Prop where
  held : InUseBlocks.Holds (list.link.decoded nodes) list.ends seq
  linkable : ∀ x ∈ seq, list.link.Linkable x

theorem Holds.nodup (holds : Holds nodes list seq) : seq.Nodup := holds.held.nodup

theorem Holds.first (holds : Holds nodes list seq) : list.first = seq.headD 0 := holds.held.first

theorem Holds.last (holds : Holds nodes list seq) : list.last = seq.getLastD 0 := holds.held.last

theorem Holds.cons_linkable (holds : Holds nodes list seq) (new : list.link.Linkable x) :
    ∀ y ∈ x :: seq, list.link.Linkable y := by
  intro y member
  rcases List.mem_cons.mp member with rfl | old
  · exact new
  · exact holds.linkable y old

/-- `Size++` and `Size--` do not wrap. -/
theorem Holds.grown_eq (holds : Holds nodes list seq) (new : list.link.Linkable x)
    (fresh : x ∉ seq) : list.grown = list.size + 1 :=
  IntrusiveList.grown_eq holds.held.size (List.nodup_cons.mpr ⟨fresh, holds.nodup⟩)
    (holds.cons_linkable new)

theorem Holds.shrunk_eq (holds : Holds nodes list seq) (filled : seq ≠ []) :
    list.shrunk = list.size - 1 :=
  IntrusiveList.shrunk_eq holds.held.size holds.nodup holds.linkable filled

theorem pushBack_decoded (new : list.link.Storable x) (last : list.link.Storable list.last) :
    list.link.decoded (pushBack nodes list x).1 =
      (InUseBlocks.pushBack (list.link.decoded nodes) list.ends x).1 := by
  unfold pushBack InUseBlocks.pushBack
  dsimp only
  rw [LinkOp.decoded_setPrev last, apply_ite list.link.decoded, LinkOp.decoded_setNext new,
    LinkOp.decoded_setNext LinkOp.storable_zero]
  rfl

theorem pushBack_holds (holds : Holds nodes list seq) (new : list.link.Linkable x)
    (fresh : x ∉ seq) :
    Holds (pushBack nodes list x).1 (pushBack nodes list x).2 (seq ++ [x]) := by
  have last : list.link.Storable list.last := holds.last ▸ storable_last holds.linkable
  have ends : (pushBack nodes list x).2.ends =
      (InUseBlocks.pushBack (list.link.decoded nodes) list.ends x).2 := by
    unfold pushBack IntrusiveList.ends InUseBlocks.pushBack
    rw [holds.grown_eq new fresh]
    rfl
  have link : (pushBack nodes list x).2.link = list.link := rfl
  constructor
  · rw [link, pushBack_decoded new.storable last, ends]
    exact InUseBlocks.pushBack_holds holds.held fresh new.ne_zero
  · intro y member
    rcases List.mem_append.mp member with old | same
    · exact holds.linkable y old
    · rw [List.mem_singleton.mp same]
      exact new

/-- Nodes outside of a list are not its ends. -/
theorem Holds.ends_ne {z : Nat} (holds : Holds nodes list seq) (outside : z ∉ seq)
    (filled : list.empty = false) : z ≠ list.first ∧ z ≠ list.last := by
  have filledSeq : seq ≠ [] := by
    rintro rfl
    have none : list.empty = true := holds.held.empty_iff.mpr rfl
    rw [none] at filled
    cases filled
  rw [holds.first, holds.last]
  constructor
  · rintro rfl
    obtain ⟨y, rest, rfl⟩ := List.exists_cons_of_ne_nil filledSeq
    exact outside List.mem_cons_self
  · rintro rfl
    obtain ⟨front, y, rfl⟩ := (List.eq_nil_or_concat' seq).resolve_left filledSeq
    exact outside (by simp)

theorem pushBack_updated (holds : Holds nodes list seq) :
    Updated nodes list (x :: seq) (pushBack nodes list x).1 (pushBack nodes list x).2 := by
  refine ⟨rfl, ?_⟩
  intro z outside
  obtain ⟨notNew, notOld⟩ := List.ne_and_not_mem_of_not_mem_cons outside
  unfold pushBack
  dsimp only
  refine Untouched.trans ?_ (untouched_setPrev notNew)
  cases empty : list.empty with
  | true => exact untouched_setNext notNew
  | false =>
    exact (untouched_setNext notNew).trans (untouched_setNext (holds.ends_ne notOld empty).2)

theorem pushFront_decoded (new : list.link.Storable x) (first : list.link.Storable list.first) :
    list.link.decoded (pushFront nodes list x).1 =
      (InUseBlocks.pushFront (list.link.decoded nodes) list.ends x).1 := by
  unfold pushFront InUseBlocks.pushFront
  dsimp only
  rw [LinkOp.decoded_setNext first, apply_ite list.link.decoded, LinkOp.decoded_setPrev new,
    LinkOp.decoded_setPrev LinkOp.storable_zero]
  rfl

theorem pushFront_holds (holds : Holds nodes list seq) (new : list.link.Linkable x)
    (fresh : x ∉ seq) :
    Holds (pushFront nodes list x).1 (pushFront nodes list x).2 (x :: seq) := by
  have first : list.link.Storable list.first := holds.first ▸ storable_head holds.linkable
  have ends : (pushFront nodes list x).2.ends =
      (InUseBlocks.pushFront (list.link.decoded nodes) list.ends x).2 := by
    unfold pushFront IntrusiveList.ends InUseBlocks.pushFront
    rw [holds.grown_eq new fresh]
    rfl
  have link : (pushFront nodes list x).2.link = list.link := rfl
  constructor
  · rw [link, pushFront_decoded new.storable first, ends]
    exact InUseBlocks.pushFront_holds holds.held fresh new.ne_zero
  · exact holds.cons_linkable new

theorem pushFront_updated (holds : Holds nodes list seq) :
    Updated nodes list (x :: seq) (pushFront nodes list x).1 (pushFront nodes list x).2 := by
  refine ⟨rfl, ?_⟩
  intro z outside
  obtain ⟨notNew, notOld⟩ := List.ne_and_not_mem_of_not_mem_cons outside
  unfold pushFront
  dsimp only
  refine Untouched.trans ?_ (untouched_setNext notNew)
  cases empty : list.empty with
  | true => exact untouched_setPrev notNew
  | false =>
    exact (untouched_setPrev notNew).trans (untouched_setPrev (holds.ends_ne notOld empty).1)

theorem Holds.at_node (holds : Holds nodes list (left ++ x :: right)) :
    list.link.getPrev nodes x = left.getLastD 0 ∧ list.link.getNext nodes x = right.headD 0 :=
  holds.held.at_node

/-- What linking two neighbours of a node with each other does to the links. -/
theorem unlink_decoded {next : Nat} (before : list.link.Storable prev)
    (after : list.link.Storable next) :
    list.link.decoded
        (let nodes := if prev ≠ 0 then list.link.setNext nodes prev next else nodes
         if next ≠ 0 then list.link.setPrev nodes next prev else nodes) =
      InUseBlocks.unlink (list.link.decoded nodes) prev next := by
  unfold InUseBlocks.unlink
  dsimp only
  rw [apply_ite list.link.decoded, LinkOp.decoded_setPrev before, apply_ite list.link.decoded,
    LinkOp.decoded_setNext after]

theorem unlink_untouched {z : Nat} (notLeft : z ∉ left) (notRight : z ∉ right) :
    Untouched nodes
      (let nodes := if left.getLastD 0 ≠ 0 then
          list.link.setNext nodes (left.getLastD 0) (right.headD 0) else nodes
       if right.headD 0 ≠ 0 then
          list.link.setPrev nodes (right.headD 0) (left.getLastD 0) else nodes) z := by
  dsimp only
  have first : Untouched nodes (if left.getLastD 0 ≠ 0 then
      list.link.setNext nodes (left.getLastD 0) (right.headD 0) else nodes) z := by
    split_ifs with there
    · exact untouched_setNext fun same => notLeft (same ▸ last_mem there)
    · exact Untouched.refl nodes z
  refine first.trans ?_
  by_cases there : right.headD 0 ≠ 0
  · rw [if_pos there]
    exact untouched_setPrev fun same => notRight (same ▸ head_mem there)
  · rw [if_neg there]
    exact Untouched.refl _ z

/-- No `CHECK` fails at a node of the list, and the node is taken out. -/
theorem remove_holds (holds : Holds nodes list (left ++ x :: right)) :
    ∃ nodes' list', remove nodes list x = some (nodes', list') ∧
      Holds nodes' list' (left ++ right) ∧
      Updated nodes list (left ++ x :: right) nodes' list' := by
  obtain ⟨before, after⟩ := holds.at_node
  have sub : left ++ right ⊆ left ++ x :: right :=
    ((List.Sublist.refl left).append (List.sublist_cons_self x right)).subset
  have linkable : ∀ y ∈ left ++ right, list.link.Linkable y :=
    fun y member => holds.linkable y (sub member)
  have storable : list.link.Storable (left.getLastD 0) ∧ list.link.Storable (right.headD 0) :=
    ⟨storable_last fun y member => linkable y (List.mem_append_left _ member),
      storable_head fun y member => linkable y (List.mem_append_right _ member)⟩
  have size : list.shrunk = (left ++ right).length := by
    have length : list.size = (left ++ x :: right).length := holds.held.size
    rw [holds.shrunk_eq (by simp), length]
    simp
  have mirrored : ¬(right.headD 0 ≠ 0 ∧ list.link.getPrev
      (if left.getLastD 0 ≠ 0 then list.link.setNext nodes (left.getLastD 0) (right.headD 0)
        else nodes) (right.headD 0) ≠ x) := by
    intro broken
    apply broken.2
    have behind := holds.held.prev_behind broken.1
    split_ifs
    · exact behind
    · exact behind
  have result : remove nodes list x = some
      (let nodes := if left.getLastD 0 ≠ 0 then
          list.link.setNext nodes (left.getLastD 0) (right.headD 0) else nodes
       if right.headD 0 ≠ 0 then
          list.link.setPrev nodes (right.headD 0) (left.getLastD 0) else nodes,
        { list with
          first := (left ++ right).headD 0
          last := (left ++ right).getLastD 0
          size := (left ++ right).length }) := by
    unfold remove
    dsimp only
    rw [before, after, if_neg (fun both => both.2 (holds.held.next_before both.1)),
      if_neg mirrored, size]
    have first := holds.held.first_erase
    have last := holds.held.last_erase
    unfold IntrusiveList.ends at first last
    dsimp only at first last
    rw [first, last]
  refine ⟨_, _, result, ⟨?_, linkable⟩, rfl, ?_⟩
  · dsimp only
    rw [unlink_decoded storable.1 storable.2]
    exact InUseBlocks.unlink_holds holds.held
  · intro z outside
    have inner : z ∉ left ++ right := fun member => outside (sub member)
    rw [List.mem_append, not_or] at inner
    exact unlink_untouched inner.1 inner.2

theorem popFront_holds (holds : Holds nodes list (x :: seq)) :
    Holds (popFront nodes list).1 (popFront nodes list).2 seq ∧
      Updated nodes list (x :: seq) (popFront nodes list).1 (popFront nodes list).2 := by
  have alone : Holds nodes list ([] ++ x :: seq) := holds
  have linkable : ∀ y ∈ seq, list.link.Linkable y :=
    fun y member => holds.linkable y (List.mem_cons_of_mem _ member)
  have first : list.link.getNext nodes list.first = seq.headD 0 := by
    rw [holds.first]
    exact alone.at_node.2
  have last : (if seq.headD 0 = 0 then 0 else list.last) = seq.getLastD 0 := by
    rw [holds.last]
    cases seq with
    | nil => rfl
    | cons y rest =>
      rw [List.headD_cons, if_neg (linkable y List.mem_cons_self).ne_zero, List.getLastD_cons,
        List.getLastD_cons, List.getLastD_cons]
  have size : list.shrunk = seq.length := by
    have length : list.size = (x :: seq).length := holds.held.size
    rw [holds.shrunk_eq (List.cons_ne_nil x seq), length]
    rfl
  have result : popFront nodes list =
      (if seq.headD 0 ≠ 0 then list.link.setPrev nodes (seq.headD 0) 0 else nodes,
        { list with first := seq.headD 0, last := seq.getLastD 0, size := seq.length }) := by
    unfold popFront
    dsimp only
    rw [first, last, size, ite_not]
  have nothing : ¬(0 ≠ 0) := fun different => different rfl
  have written := @unlink_decoded nodes list 0 (seq.headD 0) LinkOp.storable_zero
    (storable_head linkable)
  dsimp only at written
  rw [if_neg nothing] at written
  rw [result]
  refine ⟨⟨?_, linkable⟩, rfl, ?_⟩
  · dsimp only
    rw [written]
    exact InUseBlocks.unlink_holds alone.held
  · intro z outside
    dsimp only
    split_ifs with there
    · exact untouched_setPrev fun same =>
        outside (List.mem_cons_of_mem _ (same ▸ head_mem there))
    · exact Untouched.refl nodes z

/-- What `insert` does to the links of the new node and its neighbours. -/
def between (l : Links) (prev x y : Nat) : Links :=
  (((l.setNext prev x).setPrev x prev).setNext x y).setPrev y x

theorem between_next (l : Links) (prev x y z : Nat) :
    (between l prev x y).next z = if z = x then y else if z = prev then x else l.next z := by
  unfold between Links.setPrev Links.setNext
  dsimp only
  rw [Function.update_apply, Function.update_apply]

theorem between_prev (l : Links) (prev x y z : Nat) :
    (between l prev x y).prev z = if z = y then x else if z = x then prev else l.prev z := by
  unfold between Links.setPrev Links.setNext
  dsimp only
  rw [Function.update_apply, Function.update_apply]

theorem between_linked {l : Links} (linked : Linked l.next l.prev 0 (left ++ prev :: y :: right) 0)
    (nodup : (left ++ prev :: y :: right).Nodup)
    (proper : ∀ z ∈ left ++ prev :: y :: right, z ≠ 0)
    (fresh : x ∉ left ++ prev :: y :: right) :
    Linked (between l prev x y).next (between l prev x y).prev 0
      (left ++ prev :: x :: y :: right) 0 := by
  have before : left ++ prev :: y :: right = (left ++ [prev]) ++ y :: right := by simp
  have after : left ++ prev :: x :: y :: right = (left ++ [prev]) ++ x :: y :: right := by simp
  have last : (left ++ [prev]).getLastD 0 = prev := List.getLastD_concat ..
  rw [before] at linked nodup proper fresh
  have other : ∀ z ∈ (left ++ [prev]) ++ y :: right, z ≠ x := by
    rintro z member rfl
    exact fresh member
  have notY : x ≠ y := fun same => other y (by simp) same.symm
  rw [after]
  refine linked.insert ?_ ?_ (Reseamed.of_writes nodup proper ?_ ?_ ?_ ?_)
  · rw [between_next, if_pos rfl]
    rfl
  · rw [between_prev, if_neg notY, if_pos rfl, last]
  · intro z member isLast
    rw [between_next, if_neg (other z member), if_pos (isLast.trans last)]
  · intro z member isFirst
    rw [List.headD_cons] at isFirst
    rw [between_prev, if_pos isFirst]
  · intro z member inner
    rw [between_next, if_neg (other z member), if_neg (fun same => inner (same.trans last.symm))]
  · intro z member inner
    rw [List.headD_cons] at inner
    rw [between_prev, if_neg inner, if_neg (other z member)]

/-- Before a node that is not the first one the `CHECK` passes. -/
theorem insert_inner (holds : Holds nodes list (left ++ prev :: y :: right))
    (new : list.link.Linkable x) (fresh : x ∉ left ++ prev :: y :: right) :
    ∃ nodes' list', insert nodes list x y = some (nodes', list') ∧
      Holds nodes' list' (left ++ prev :: x :: y :: right) ∧
      Updated nodes list (x :: (left ++ prev :: y :: right)) nodes' list' := by
  have nodup := holds.nodup
  have notFirst : y ≠ list.first := by
    rw [holds.first]
    cases left with
    | nil =>
      rintro rfl
      simp at nodup
    | cons z rest =>
      rintro rfl
      simp at nodup
  have forth : list.link.getNext nodes prev = y := holds.at_node.2
  have back : list.link.getPrev nodes y = prev := by
    have shape : left ++ prev :: y :: right = (left ++ [prev]) ++ y :: right := by simp
    have there := holds
    rw [shape] at there
    rw [there.at_node.1, List.getLastD_concat]
  have storable {z : Nat} (member : z ∈ left ++ prev :: y :: right) : list.link.Storable z :=
    (holds.linkable z member).storable
  have written : list.link.decoded (list.link.setPrev (list.link.setNext (list.link.setPrev
      (list.link.setNext nodes prev x) x prev) x y) y x) =
        between (list.link.decoded nodes) prev x y := by
    rw [LinkOp.decoded_setPrev new.storable, LinkOp.decoded_setNext (storable (by simp)),
      LinkOp.decoded_setPrev (storable (by simp)), LinkOp.decoded_setNext new.storable]
    rfl
  have result : insert nodes list x y = some (list.link.setPrev (list.link.setNext
      (list.link.setPrev (list.link.setNext nodes prev x) x prev) x y) y x,
        { list with size := list.size + 1 }) := by
    unfold insert
    dsimp only
    rw [if_neg notFirst, back, if_neg (not_not.mpr forth), holds.grown_eq new fresh]
  have middle : (left ++ prev :: x :: y :: right).Perm (x :: (left ++ prev :: y :: right)) := by
    have moved := @List.perm_middle _ x (left ++ [prev]) (y :: right)
    simpa using moved
  have size : list.size = (left ++ prev :: y :: right).length := holds.held.size
  refine ⟨_, _, result, ⟨?_, ?_⟩, rfl, ?_⟩
  · dsimp only
    rw [written]
    constructor
    · exact between_linked holds.held.linked nodup holds.held.proper fresh
    · have first := holds.first
      cases left with
      | nil => exact first
      | cons z rest => exact first
    · have last := holds.last
      have same : (left ++ prev :: x :: y :: right).getLastD 0 =
          (left ++ prev :: y :: right).getLastD 0 := by
        simp [List.getLastD_eq_getLast?, List.getLast?_append]
      rw [same]
      exact last
    · rw [middle.length_eq, List.length_cons, ← size]
      rfl
    · exact middle.nodup_iff.mpr (List.nodup_cons.mpr ⟨fresh, nodup⟩)
    · intro z member
      rcases List.mem_cons.mp (middle.mem_iff.mp member) with rfl | old
      · exact new.ne_zero
      · exact holds.held.proper z old
  · exact fun z member => holds.cons_linkable new z (middle.mem_iff.mp member)
  · intro z outside
    obtain ⟨notNew, notOld⟩ := List.ne_and_not_mem_of_not_mem_cons outside
    have notPrev : z ≠ prev := by
      rintro rfl
      simp at notOld
    have notNext : z ≠ y := by
      rintro rfl
      simp at notOld
    exact (((untouched_setNext notPrev).trans (untouched_setPrev notNew)).trans
      (untouched_setNext notNew)).trans (untouched_setPrev notNext)

/-- No `CHECK` fails before a node of the list, and the new node is put there. -/
theorem insert_holds (holds : Holds nodes list (left ++ y :: right))
    (new : list.link.Linkable x) (fresh : x ∉ left ++ y :: right) :
    ∃ nodes' list', insert nodes list x y = some (nodes', list') ∧
      Holds nodes' list' (left ++ x :: y :: right) ∧
      Updated nodes list (x :: (left ++ y :: right)) nodes' list' := by
  rcases List.eq_nil_or_concat' left with rfl | ⟨front, prev, rfl⟩
  · have result : insert nodes list x y = some (pushFront nodes list x) :=
      if_pos holds.first.symm
    exact ⟨_, _, result, pushFront_holds holds new fresh, pushFront_updated holds⟩
  · have before : front ++ [prev] ++ y :: right = front ++ prev :: y :: right := by simp
    have after : front ++ [prev] ++ x :: y :: right = front ++ prev :: x :: y :: right := by simp
    rw [before] at holds fresh ⊢
    rw [after]
    exact insert_inner holds new fresh

theorem clear_holds (nodes : Links) (list : IntrusiveList) : Holds nodes list.clear [] :=
  ⟨InUseBlocks.holds_nil _, fun _ member => absurd member List.not_mem_nil⟩

end DoublyLinkedList

end Scudo.Intrusive
