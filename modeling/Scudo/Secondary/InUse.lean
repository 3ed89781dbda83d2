import Scudo.Lib.Linked
import Mathlib.Logic.Function.Basic

/-!
`DoublyLinkedList`, as the list of blocks in use: the links stand in the headers of the blocks,
the ends and the size in the list itself.
-/

namespace Scudo.Secondary
open Scudo.Lib

/-- The links in the headers of large blocks, by address; 0 is the null pointer. -/
structure Links where
  next : Nat → Nat
  prev : Nat → Nat

namespace Links

def setNext (l : Links) (x value : Nat) : Links := { l with next := Function.update l.next x value }

def setPrev (l : Links) (x value : Nat) : Links := { l with prev := Function.update l.prev x value }

end Links

structure InUseBlocks where
  first : Nat
  last : Nat
  size : Nat
  deriving DecidableEq, Repr

namespace InUseBlocks

def empty (list : InUseBlocks) : Bool := list.size == 0

/-- `push_back`. -/
def pushBack (l : Links) (list : InUseBlocks) (x : Nat) : Links × InUseBlocks :=
  let l := l.setNext x 0
  let l := if list.empty then l else l.setNext list.last x
  (l.setPrev x list.last,
    { first := if list.empty then x else list.first, last := x, size := list.size + 1 })

/-- `none` where a `CHECK` fails. -/
def remove (l : Links) (list : InUseBlocks) (x : Nat) : Option (Links × InUseBlocks) :=
  let prev := l.prev x
  let next := l.next x
  if prev ≠ 0 ∧ l.next prev ≠ x then none
  else
    let l := if prev ≠ 0 then l.setNext prev next else l
    if next ≠ 0 ∧ l.prev next ≠ x then none
    else
      let l := if next ≠ 0 then l.setPrev next prev else l
      some (l,
        { first := if list.first = x then next else list.first
          last := if list.last = x then prev else list.last
          size := list.size - 1 })

/-- The blocks met from `x` on, `count` at most. -/
def chain (l : Links) : Nat → Nat → List Nat
  | 0, _ => []
  | count + 1, x => if x = 0 then [] else x :: chain l count (l.next x)

/-- The links form a list of exactly these blocks, from the first to the last. -/
structure Holds (l : Links) (list : InUseBlocks) (live : List Nat) : Prop where
  linked : Linked l.next l.prev 0 live 0
  first : list.first = live.headD 0
  last : list.last = live.getLastD 0
  size : list.size = live.length
  nodup : live.Nodup
  proper : ∀ x ∈ live, x ≠ 0

section Spec

variable {l l' : Links} {list : InUseBlocks} {live left right : List Nat} {x : Nat}

theorem holds_nil (l : Links) : Holds l ⟨0, 0, 0⟩ [] :=
  ⟨linked_nil, rfl, rfl, rfl, List.nodup_nil, fun _ member => absurd member List.not_mem_nil⟩

/-- Only the links in the blocks of the list matter. -/
theorem Holds.congr (holds : Holds l list live) (next : ∀ y ∈ live, l'.next y = l.next y)
    (prev : ∀ y ∈ live, l'.prev y = l.prev y) : Holds l' list live :=
  { holds with linked := holds.linked.congr next prev }

/-- Following the links from the first node meets the nodes of the list, and then ends. -/
theorem Chained.chain_eq {nodes : List Nat} {count : Nat} (chained : Chained l.next nodes 0)
    (proper : ∀ x ∈ nodes, x ≠ 0) (enough : nodes.length < count) :
    chain l count (nodes.headD 0) = nodes := by
  induction nodes generalizing count with
  | nil =>
    cases count with
    | zero => rfl
    | succ count => simp [chain]
  | cons y rest ih =>
    cases count with
    | zero => cases enough
    | succ count =>
      have nonzero := proper y List.mem_cons_self
      have follows := ih chained.2 (fun x member => proper x (List.mem_cons_of_mem _ member))
        (by simpa using enough : rest.length < count)
      rw [List.headD_cons, chain, if_neg nonzero, chained.1, follows]

theorem Holds.empty_iff (holds : Holds l list live) : list.empty = true ↔ live = [] := by
  unfold InUseBlocks.empty
  rw [holds.size, beq_iff_eq, List.length_eq_zero_iff]

/-- The links at a block of the list are its neighbours. -/
theorem Holds.at_node (holds : Holds l list (left ++ x :: right)) :
    l.prev x = left.getLastD 0 ∧ l.next x = right.headD 0 :=
  holds.linked.at_node

/-- So do the links of the neighbours. -/
theorem Holds.next_before (holds : Holds l list (left ++ x :: right))
    (there : left.getLastD 0 ≠ 0) : l.next (left.getLastD 0) = x := by
  rcases List.eq_nil_or_concat' left with rfl | ⟨front, p, rfl⟩
  · exact absurd rfl there
  · rw [List.getLastD_concat]
    have shape : front ++ [p] ++ x :: right = front ++ p :: x :: right := by simp
    rw [shape] at holds
    exact holds.at_node.2

theorem Holds.prev_behind (holds : Holds l list (left ++ x :: right))
    (there : right.headD 0 ≠ 0) : l.prev (right.headD 0) = x := by
  cases right with
  | nil => exact absurd rfl there
  | cons n rest =>
    have shape : left ++ x :: n :: rest = (left ++ [x]) ++ n :: rest := by simp
    rw [shape] at holds
    rw [List.headD_cons, holds.at_node.1, List.getLastD_concat]

/-- A block is not its own neighbour. -/
theorem Holds.neighbours_ne (holds : Holds l list (left ++ x :: right)) :
    left.getLastD 0 ≠ x ∧ right.headD 0 ≠ x := by
  have nodup := holds.nodup
  have nonzero := holds.proper x (by simp)
  constructor
  · rcases List.eq_nil_or_concat' left with rfl | ⟨front, p, rfl⟩
    · exact nonzero.symm
    · rw [List.getLastD_concat]
      rintro rfl
      simp [List.nodup_append] at nodup
  · cases right with
    | nil => exact nonzero.symm
    | cons n rest =>
      rw [List.headD_cons]
      rintro rfl
      simp [List.nodup_append] at nodup

theorem Holds.erase_eq (holds : Holds l list (left ++ x :: right)) :
    (left ++ x :: right).erase x = left ++ right := by
  have notLeft : x ∉ left := by
    intro member
    exact (List.nodup_append.mp holds.nodup).2.2 x member x List.mem_cons_self rfl
  rw [List.erase_append_right _ notLeft, List.erase_cons_head]

/-- The last block has no next one. -/
theorem Holds.next_last (holds : Holds l list live) (filled : list.empty = false) :
    l.next list.last = 0 := by
  rcases List.eq_nil_or_concat' live with rfl | ⟨front, p, rfl⟩
  · rw [holds.empty_iff.mpr rfl] at filled
    cases filled
  · rw [holds.last, List.getLastD_concat]
    exact holds.at_node.2

/-- `push_back` writes the next link of the last block and both links of the new one. -/
theorem pushBack_next (l : Links) (list : InUseBlocks) (x y : Nat) :
    (pushBack l list x).1.next y =
      if list.empty = false ∧ y = list.last then x else if y = x then 0 else l.next y := by
  unfold pushBack Links.setPrev Links.setNext
  cases empty : list.empty with
  | true => simp [Function.update_apply]
  | false => simp [Function.update_apply]

theorem pushBack_prev (l : Links) (list : InUseBlocks) (x y : Nat) :
    (pushBack l list x).1.prev y = if y = x then list.last else l.prev y := by
  unfold pushBack Links.setPrev Links.setNext
  cases empty : list.empty with
  | true => simp [Function.update_apply]
  | false => simp [Function.update_apply]

theorem pushBack_holds (holds : Holds l list live) (fresh : x ∉ live) (nonzero : x ≠ 0) :
    Holds (pushBack l list x).1 (pushBack l list x).2 (live ++ [x]) := by
  have different : ∀ y ∈ live ++ [], y ≠ x := by
    rintro y member rfl
    exact fresh (by simpa using member)
  have last : ∀ y ∈ live ++ [], list.empty = false := by
    intro y member
    rw [← Bool.not_eq_true, holds.empty_iff]
    rintro rfl
    simp at member
  have notLast : x ≠ list.last ∨ list.empty = true := by
    rw [holds.last]
    rcases List.eq_nil_or_concat' live with rfl | ⟨front, y, rfl⟩
    · exact Or.inr (holds.empty_iff.mpr rfl)
    · left
      rintro rfl
      simp at fresh
  constructor
  · have linked := holds.linked
    rw [← List.append_nil live] at linked
    apply linked.insert
    · rw [pushBack_next, if_neg, if_pos rfl]
      · rfl
      · rintro ⟨filled, same⟩
        rcases notLast with other | empty
        · exact other same
        · rw [filled] at empty
          cases empty
    · rw [pushBack_prev, if_pos rfl]
      exact holds.last
    · have nodup : (live ++ []).Nodup := by simpa using holds.nodup
      have proper : ∀ y ∈ live ++ [], y ≠ 0 := by simpa using holds.proper
      apply Reseamed.of_writes nodup proper
      · intro y member same
        rw [pushBack_next, if_pos ⟨last y member, same.trans holds.last.symm⟩]
      · intro y member same
        exact absurd same (proper y member)
      · intro y member other
        rw [pushBack_next, if_neg (fun both => other (both.2.trans holds.last)),
          if_neg (different y member)]
      · intro y member _
        rw [pushBack_prev, if_neg (different y member)]
  · unfold pushBack
    cases live with
    | nil => simp [holds.empty_iff.mpr rfl]
    | cons y rest =>
      have filled : list.empty = false := last y (by simp)
      simpa [filled] using holds.first
  · simp [pushBack]
  · simp [pushBack, holds.size]
  · exact List.nodup_append.mpr ⟨holds.nodup, by simp, fun y member z same => by
      rw [List.mem_singleton.mp same]
      exact different y (by simpa using member)⟩
  · intro y member
    rcases List.mem_append.mp member with old | new
    · exact holds.proper y old
    · rw [List.mem_singleton.mp new]
      exact nonzero

/-- What `remove` does to the links of the neighbours. -/
def unlink (l : Links) (prev next : Nat) : Links :=
  let l := if prev ≠ 0 then l.setNext prev next else l
  if next ≠ 0 then l.setPrev next prev else l

theorem unlink_next (l : Links) (prev next y : Nat) :
    (unlink l prev next).next y = if prev ≠ 0 ∧ y = prev then next else l.next y := by
  unfold unlink Links.setPrev Links.setNext
  by_cases first : prev = 0
  · by_cases second : next = 0 <;> simp [first, second]
  · by_cases second : next = 0 <;> simp [first, second, Function.update_apply]

theorem unlink_prev (l : Links) (prev next y : Nat) :
    (unlink l prev next).prev y = if next ≠ 0 ∧ y = next then prev else l.prev y := by
  unfold unlink Links.setPrev Links.setNext
  by_cases second : next = 0
  · by_cases first : prev = 0 <;> simp [first, second]
  · by_cases first : prev = 0 <;> simp [first, second, Function.update_apply]

/-- The ends of the list without one of its blocks. -/
theorem Holds.first_erase (holds : Holds l list (left ++ x :: right)) :
    (if list.first = x then right.headD 0 else list.first) = (left ++ right).headD 0 := by
  have nodup := holds.nodup
  rw [holds.first]
  cases left with
  | nil => simp
  | cons y rest =>
    have other : y ≠ x := by
      rintro rfl
      simp at nodup
    simp [other]

theorem Holds.last_erase (holds : Holds l list (left ++ x :: right)) :
    (if list.last = x then left.getLastD 0 else list.last) = (left ++ right).getLastD 0 := by
  have nodup := holds.nodup
  rw [holds.last]
  rcases List.eq_nil_or_concat' right with rfl | ⟨front, y, rfl⟩
  · simp
  · have other : y ≠ x := by
      rintro rfl
      simp [List.nodup_append] at nodup
    have shape : left ++ x :: (front ++ [y]) = left ++ x :: front ++ [y] := by simp
    rw [shape, List.getLastD_concat, if_neg other, ← List.append_assoc, List.getLastD_concat]

/-- At a block of the list no `CHECK` fails, and `remove` takes it out. -/
theorem remove_eq (holds : Holds l list (left ++ x :: right)) :
    remove l list x = some (unlink l (left.getLastD 0) (right.headD 0),
      { first := (left ++ right).headD 0
        last := (left ++ right).getLastD 0
        size := (left ++ right).length }) := by
  obtain ⟨prev, next⟩ := holds.at_node
  have size : list.size - 1 = (left ++ right).length := by
    rw [holds.size]
    simp
  unfold remove
  dsimp only
  rw [prev, next, if_neg (fun both => both.2 (holds.next_before both.1)), if_neg,
    holds.first_erase, holds.last_erase, size]
  · rfl
  · rintro ⟨there, broken⟩
    apply broken
    have behind := holds.prev_behind there
    split_ifs <;> exact behind

theorem unlink_holds (holds : Holds l list (left ++ x :: right)) :
    Holds (unlink l (left.getLastD 0) (right.headD 0))
      { first := (left ++ right).headD 0
        last := (left ++ right).getLastD 0
        size := (left ++ right).length } (left ++ right) := by
  have sub : (left ++ right).Sublist (left ++ x :: right) :=
    (List.Sublist.refl left).append (List.sublist_cons_self x right)
  have nodup := holds.nodup.sublist sub
  have proper : ∀ y ∈ left ++ right, y ≠ 0 := fun y member => holds.proper y (sub.subset member)
  refine ⟨?_, rfl, rfl, rfl, nodup, proper⟩
  apply holds.linked.erase
  apply Reseamed.of_writes nodup proper
  · intro y member same
    rw [unlink_next, if_pos ⟨same ▸ proper y member, same⟩]
  · intro y member same
    rw [unlink_prev, if_pos ⟨same ▸ proper y member, same⟩]
  · intro y member other
    rw [unlink_next, if_neg (fun both => other both.2)]
  · intro y member other
    rw [unlink_prev, if_neg (fun both => other both.2)]

end Spec

end InUseBlocks

end Scudo.Secondary
