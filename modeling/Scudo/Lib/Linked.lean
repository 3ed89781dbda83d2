import Mathlib.Data.List.Basic
import Mathlib.Tactic.Common

/-!
Doubly linked sequences over arbitrary nodes. The links are two functions, and the ends
of a sequence point at two given nodes, usually one shared sentinel.
-/

namespace Scudo.Lib

variable {α : Type*}

/-- `nodes` is linked both ways, from `before` on its left to `after` on its right. -/
def Linked (next prev : α → α) : α → List α → α → Prop
  | _, [], _ => True
  | before, x :: rest, after =>
      prev x = before ∧ next x = rest.headD after ∧ Linked next prev x rest after

variable {next prev next' prev' : α → α} {before after : α}

@[simp] theorem linked_nil : Linked next prev before [] after := trivial

theorem linked_cons {x : α} {rest : List α} :
    Linked next prev before (x :: rest) after ↔
      prev x = before ∧ next x = rest.headD after ∧ Linked next prev x rest after := Iff.rfl

theorem linked_append {left right : List α} :
    Linked next prev before (left ++ right) after ↔
      Linked next prev before left (right.headD after) ∧
        Linked next prev (left.getLastD before) right after := by
  induction left generalizing before with
  | nil => simp
  | cons x left ih =>
    have first : (left ++ right).headD after = left.headD (right.headD after) := by
      cases left <;> simp
    simp only [List.cons_append, linked_cons, ih, List.getLastD_cons, first]
    tauto

/-- The links at one node of a sequence point at its two neighbours. -/
theorem Linked.at_node {left right : List α} {x : α}
    (linked : Linked next prev before (left ++ x :: right) after) :
    prev x = left.getLastD before ∧ next x = right.headD after := by
  have tail := (linked_append.mp linked).2
  exact ⟨tail.1, tail.2.1⟩

theorem Linked.congr {nodes : List α} (linked : Linked next prev before nodes after)
    (sameNext : ∀ x ∈ nodes, next' x = next x) (samePrev : ∀ x ∈ nodes, prev' x = prev x) :
    Linked next' prev' before nodes after := by
  induction nodes generalizing before with
  | nil => trivial
  | cons x rest ih =>
    refine ⟨?_, ?_, ih linked.2.2 (fun y member => sameNext y (List.mem_cons_of_mem _ member))
      (fun y member => samePrev y (List.mem_cons_of_mem _ member))⟩
    · rw [samePrev x List.mem_cons_self]
      exact linked.1
    · rw [sameNext x List.mem_cons_self]
      exact linked.2.1

/-- Only the last node of a sequence points past its right end. -/
theorem Linked.retarget_next {nodes : List α} {after' : α}
    (linked : Linked next prev before nodes after)
    (sameNext : ∀ x ∈ nodes.dropLast, next' x = next x)
    (last : ∀ x, nodes.getLast? = some x → next' x = after')
    (samePrev : ∀ x ∈ nodes, prev' x = prev x) : Linked next' prev' before nodes after' := by
  induction nodes generalizing before with
  | nil => trivial
  | cons x rest ih =>
    cases rest with
    | nil =>
      refine ⟨?_, last x rfl, trivial⟩
      rw [samePrev x List.mem_cons_self]
      exact linked.1
    | cons y rest =>
      refine ⟨?_, ?_, ih linked.2.2 (fun z member => sameNext z (by
        simp only [List.dropLast_cons_cons]
        exact List.mem_cons_of_mem _ member)) (fun z isLast => last z (by
          simpa [List.getLast?_cons_cons] using isLast))
        (fun z member => samePrev z (List.mem_cons_of_mem _ member))⟩
      · rw [samePrev x List.mem_cons_self]
        exact linked.1
      · rw [sameNext x (by simp)]
        exact linked.2.1

/-- Only the first node of a sequence points past its left end. -/
theorem Linked.retarget_prev {nodes : List α} {before' : α}
    (linked : Linked next prev before nodes after)
    (samePrev : ∀ x ∈ nodes.tail, prev' x = prev x)
    (first : ∀ x, nodes.head? = some x → prev' x = before')
    (sameNext : ∀ x ∈ nodes, next' x = next x) : Linked next' prev' before' nodes after := by
  cases nodes with
  | nil => trivial
  | cons x rest =>
    refine ⟨first x rfl, ?_, linked.2.2.congr
      (fun y member => sameNext y (List.mem_cons_of_mem _ member)) samePrev⟩
    rw [sameNext x List.mem_cons_self]
    exact linked.2.1

/-- How the links of an updated memory differ from the old ones at a seam: the node left
of it points to `toRight`, the node right of it to `toLeft`, all others are as before. -/
structure Reseamed (next prev next' prev' : α → α) (left right : List α) (toRight toLeft : α) :
    Prop where
  last : ∀ x, left.getLast? = some x → next' x = toRight
  first : ∀ x, right.head? = some x → prev' x = toLeft
  sameNext : ∀ x ∈ left.dropLast ++ right, next' x = next x
  samePrev : ∀ x ∈ left ++ right.tail, prev' x = prev x

/-- When no node is the sentinel that stands for a missing neighbour, a write to each of the
two nodes at the seam makes a new seam. -/
theorem Reseamed.of_writes {left right : List α} {sentinel toRight toLeft : α}
    (nodup : (left ++ right).Nodup) (proper : ∀ x ∈ left ++ right, x ≠ sentinel)
    (atLast : ∀ x ∈ left ++ right, x = left.getLastD sentinel → next' x = toRight)
    (atFirst : ∀ x ∈ left ++ right, x = right.headD sentinel → prev' x = toLeft)
    (otherNext : ∀ x ∈ left ++ right, x ≠ left.getLastD sentinel → next' x = next x)
    (otherPrev : ∀ x ∈ left ++ right, x ≠ right.headD sentinel → prev' x = prev x) :
    Reseamed next prev next' prev' left right toRight toLeft := by
  rcases List.eq_nil_or_concat' left with rfl | ⟨front, p, rfl⟩
  · cases right with
    | nil => constructor <;> simp
    | cons n rest =>
      simp only [List.nil_append, List.nodup_cons, List.getLastD_nil, List.headD_cons] at *
      constructor
      · simp
      · simpa using atFirst n List.mem_cons_self rfl
      · intro x member
        exact otherNext x member (proper x member)
      · intro x member
        exact otherPrev x (List.mem_cons_of_mem _ member) (fun same => nodup.1 (same ▸ member))
  · have last : (front ++ [p]).getLastD sentinel = p := by simp
    rw [last] at atLast otherNext
    have frontNe : ∀ x ∈ front, x ≠ p := by
      intro x member same
      have disjoint := (List.nodup_append.mp (List.nodup_append.mp nodup).1).2.2
      exact disjoint x member p (by simp) same
    have rightNe : ∀ x ∈ right, x ≠ p := by
      intro x member same
      exact (List.nodup_append.mp nodup).2.2 p (by simp) x member same.symm
    constructor
    · simpa using atLast p (by simp) rfl
    · intro x isFirst
      have shape : right.headD sentinel = x := by
        cases right <;> simp_all
      exact atFirst x (List.mem_append_right _ (List.mem_of_head? isFirst)) shape.symm
    · intro x member
      rw [List.dropLast_concat] at member
      rcases List.mem_append.mp member with inFront | inRight
      · exact otherNext x (by simp [inFront]) (frontNe x inFront)
      · exact otherNext x (by simp [inRight]) (rightNe x inRight)
    · intro x member
      rcases List.mem_append.mp member with inLeft | inTail
      · refine otherPrev x (List.mem_append_left _ inLeft) ?_
        cases right with
        | nil => exact proper x (by simpa using inLeft)
        | cons n rest =>
          exact (List.nodup_append.mp nodup).2.2 x inLeft n List.mem_cons_self
      · refine otherPrev x (List.mem_append_right _ (List.mem_of_mem_tail inTail)) ?_
        cases right with
        | nil => simp at inTail
        | cons n rest =>
          have fresh := (List.nodup_cons.mp (List.nodup_append.mp nodup).2.1).1
          exact fun same => fresh ((show x = n from same) ▸ inTail)

/-- Writing a new node into the seam of a sequence. -/
theorem Linked.insert {left right : List α} {x : α}
    (linked : Linked next prev before (left ++ right) after)
    (nextX : next' x = right.headD after) (prevX : prev' x = left.getLastD before)
    (seam : Reseamed next prev next' prev' left right x x) :
    Linked next' prev' before (left ++ x :: right) after := by
  obtain ⟨linkedLeft, linkedRight⟩ := linked_append.mp linked
  refine linked_append.mpr ⟨linkedLeft.retarget_next
    (fun y member => seam.sameNext y (List.mem_append_left _ member)) seam.last
    (fun y member => seam.samePrev y (List.mem_append_left _ member)), prevX, nextX, ?_⟩
  exact linkedRight.retarget_prev
    (fun y member => seam.samePrev y (List.mem_append_right _ member)) seam.first
    (fun y member => seam.sameNext y (List.mem_append_right _ member))

/-- Linking the neighbours of a node with each other takes it out of the sequence. -/
theorem Linked.erase {left right : List α} {x : α}
    (linked : Linked next prev before (left ++ x :: right) after)
    (seam : Reseamed next prev next' prev' left right (right.headD after)
      (left.getLastD before)) :
    Linked next' prev' before (left ++ right) after := by
  obtain ⟨linkedLeft, linkedRight⟩ := linked_append.mp linked
  refine linked_append.mpr ⟨linkedLeft.retarget_next
    (fun y member => seam.sameNext y (List.mem_append_left _ member)) seam.last
    (fun y member => seam.samePrev y (List.mem_append_left _ member)), ?_⟩
  exact linkedRight.2.2.retarget_prev
    (fun y member => seam.samePrev y (List.mem_append_right _ member)) seam.first
    (fun y member => seam.sameNext y (List.mem_append_right _ member))

/-- `nodes` is linked in one direction, and its last node points to `after`. -/
def Chained (next : α → α) : List α → α → Prop
  | [], _ => True
  | x :: rest, after => next x = rest.headD after ∧ Chained next rest after

@[simp] theorem chained_nil : Chained next [] after := trivial

theorem Linked.chained {nodes : List α} (linked : Linked next prev before nodes after) :
    Chained next nodes after := by
  induction nodes generalizing before with
  | nil => trivial
  | cons x rest ih => exact ⟨linked.2.1, ih linked.2.2⟩

theorem Chained.congr {nodes : List α} (chained : Chained next nodes after)
    (same : ∀ x ∈ nodes, next' x = next x) : Chained next' nodes after := by
  induction nodes with
  | nil => trivial
  | cons x rest ih =>
    refine ⟨?_, ih chained.2 fun y member => same y (List.mem_cons_of_mem _ member)⟩
    rw [same x List.mem_cons_self]
    exact chained.1

theorem chained_append {left right : List α} :
    Chained next (left ++ right) after ↔
      Chained next left (right.headD after) ∧ Chained next right after := by
  induction left with
  | nil => simp
  | cons x left ih =>
    have first : (left ++ right).headD after = left.headD (right.headD after) := by
      cases left <;> simp
    simp only [List.cons_append, Chained, ih, first]
    tauto

/-- Only the last node of a sequence points past its end. -/
theorem Chained.retarget {nodes : List α} {after' : α} (chained : Chained next nodes after)
    (same : ∀ x ∈ nodes.dropLast, next' x = next x)
    (last : ∀ x, nodes.getLast? = some x → next' x = after') : Chained next' nodes after' := by
  induction nodes with
  | nil => trivial
  | cons x rest ih =>
    cases rest with
    | nil => exact ⟨last x rfl, trivial⟩
    | cons y rest =>
      refine ⟨?_, ih chained.2 (fun z member => same z (by
        rw [List.dropLast_cons_cons]
        exact List.mem_cons_of_mem _ member)) (fun z isLast => last z (by
          simpa [List.getLast?_cons_cons] using isLast))⟩
      rw [same x (by simp)]
      exact chained.1

/-- Two sequences of which the last node of the first points to the second. -/
theorem Chained.append {left right : List α} {middle : α} (chained : Chained next left middle)
    (behind : Chained next right after)
    (last : ∀ y, left.getLast? = some y → next' y = right.headD after)
    (same : ∀ y ∈ left.dropLast ++ right, next' y = next y) :
    Chained next' (left ++ right) after := by
  refine chained_append.mpr ⟨chained.retarget
    (fun y member => same y (List.mem_append_left _ member)) last, ?_⟩
  exact behind.congr fun y member => same y (List.mem_append_right _ member)

/-- Writing a new node into a sequence. -/
theorem Chained.insert {left right : List α} {x : α}
    (chained : Chained next (left ++ right) after) (new : next' x = right.headD after)
    (last : ∀ y, left.getLast? = some y → next' y = x)
    (same : ∀ y ∈ left.dropLast ++ right, next' y = next y) :
    Chained next' (left ++ x :: right) after := by
  obtain ⟨chainedLeft, chainedRight⟩ := chained_append.mp chained
  refine chained_append.mpr ⟨chainedLeft.retarget
    (fun y member => same y (List.mem_append_left _ member)) last, new, ?_⟩
  exact chainedRight.congr fun y member => same y (List.mem_append_right _ member)

/-- Linking past a node takes it out of the sequence. -/
theorem Chained.erase {left right : List α} {x : α}
    (chained : Chained next (left ++ x :: right) after)
    (last : ∀ y, left.getLast? = some y → next' y = right.headD after)
    (same : ∀ y ∈ left.dropLast ++ right, next' y = next y) :
    Chained next' (left ++ right) after := by
  obtain ⟨chainedLeft, chainedRight⟩ := chained_append.mp chained
  exact chainedLeft.append chainedRight.2 last same

/-- A node written behind the last one. -/
theorem Chained.concat {nodes : List α} {x : α} (chained : Chained next nodes after)
    (new : next' x = after) (last : ∀ y, nodes.getLast? = some y → next' y = x)
    (same : ∀ y ∈ nodes.dropLast, next' y = next y) : Chained next' (nodes ++ [x]) after := by
  have whole : Chained next (nodes ++ []) after := by rwa [List.append_nil]
  refine whole.insert new last ?_
  rwa [List.append_nil]

end Scudo.Lib
