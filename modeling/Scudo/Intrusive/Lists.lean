import Scudo.Intrusive.Links

/-!
`SinglyLinkedList` and `DoublyLinkedList`, over nodes whose links are of either kind. A list that
is full of zeros is empty.
-/

namespace Scudo.Intrusive
open Scudo.Secondary (Links InUseBlocks AvailEntries)

structure IntrusiveList where
  link : LinkOp
  size : Nat
  first : Nat
  last : Nat
  deriving DecidableEq, Repr

namespace IntrusiveList

def empty (list : IntrusiveList) : Bool := list.size == 0

def clear (list : IntrusiveList) : IntrusiveList := { list with first := 0, last := 0, size := 0 }

/-- `Size++`. -/
def grown (list : IntrusiveList) : Nat := wadd list.link.word.bits list.size 1

/-- `Size--`. -/
def shrunk (list : IntrusiveList) : Nat := wsub list.link.word.bits list.size 1

/-- The nodes that an iterator meets from `x` on, `count` at most. -/
def walk (list : IntrusiveList) (nodes : Links) : Nat → Nat → List Nat :=
  InUseBlocks.chain (list.link.decoded nodes)

end IntrusiveList

namespace SinglyLinkedList

def pushBack (nodes : Links) (list : IntrusiveList) (x : Nat) : Links × IntrusiveList :=
  let nodes := list.link.setNext nodes x 0
  (if list.empty then nodes else list.link.setNext nodes list.last x,
    { list with first := if list.empty then x else list.first, last := x, size := list.grown })

def pushFront (nodes : Links) (list : IntrusiveList) (x : Nat) : Links × IntrusiveList :=
  (list.link.setNext nodes x list.first,
    { list with last := if list.empty then x else list.last, first := x, size := list.grown })

def popFront (nodes : Links) (list : IntrusiveList) : IntrusiveList :=
  let first := list.link.getNext nodes list.first
  { list with first := first, last := if first = 0 then 0 else list.last, size := list.shrunk }

/-- Behind `prev`. -/
def insert (nodes : Links) (list : IntrusiveList) (prev x : Nat) : Links × IntrusiveList :=
  let nodes := list.link.setNext nodes x (list.link.getNext nodes prev)
  (list.link.setNext nodes prev x,
    { list with last := if list.last = prev then x else list.last, size := list.grown })

def extract (nodes : Links) (list : IntrusiveList) (prev x : Nat) : Links × IntrusiveList :=
  (list.link.setNext nodes prev (list.link.getNext nodes x),
    { list with last := if list.last = x then prev else list.last, size := list.shrunk })

/-- The other list is left empty. -/
def appendBack (nodes : Links) (list other : IntrusiveList) :
    Links × IntrusiveList × IntrusiveList :=
  if other.empty then (nodes, list, other)
  else if list.empty then (nodes, other, other.clear)
  else
    (list.link.setNext nodes list.last other.first,
      { list with last := other.last, size := wadd list.link.word.bits list.size other.size },
      other.clear)

end SinglyLinkedList

namespace DoublyLinkedList

def pushFront (nodes : Links) (list : IntrusiveList) (x : Nat) : Links × IntrusiveList :=
  let nodes := list.link.setPrev nodes x 0
  let nodes := if list.empty then nodes else list.link.setPrev nodes list.first x
  (list.link.setNext nodes x list.first,
    { list with last := if list.empty then x else list.last, first := x, size := list.grown })

/-- Before `y`; `none` where the `CHECK` fails. -/
def insert (nodes : Links) (list : IntrusiveList) (x y : Nat) : Option (Links × IntrusiveList) :=
  if y = list.first then some (pushFront nodes list x)
  else
    let prev := list.link.getPrev nodes y
    if list.link.getNext nodes prev ≠ y then none
    else
      let nodes := list.link.setNext nodes prev x
      let nodes := list.link.setPrev nodes x prev
      let nodes := list.link.setNext nodes x y
      some (list.link.setPrev nodes y x, { list with size := list.grown })

def pushBack (nodes : Links) (list : IntrusiveList) (x : Nat) : Links × IntrusiveList :=
  let nodes := list.link.setNext nodes x 0
  let nodes := if list.empty then nodes else list.link.setNext nodes list.last x
  (list.link.setPrev nodes x list.last,
    { list with first := if list.empty then x else list.first, last := x, size := list.grown })

def popFront (nodes : Links) (list : IntrusiveList) : Links × IntrusiveList :=
  let first := list.link.getNext nodes list.first
  (if first = 0 then nodes else list.link.setPrev nodes first 0,
    { list with first := first, last := if first = 0 then 0 else list.last, size := list.shrunk })

/-- `none` where a `CHECK` fails. -/
def remove (nodes : Links) (list : IntrusiveList) (x : Nat) : Option (Links × IntrusiveList) :=
  let prev := list.link.getPrev nodes x
  let next := list.link.getNext nodes x
  if prev ≠ 0 ∧ list.link.getNext nodes prev ≠ x then none
  else
    let nodes := if prev ≠ 0 then list.link.setNext nodes prev next else nodes
    if next ≠ 0 ∧ list.link.getPrev nodes next ≠ x then none
    else
      let nodes := if next ≠ 0 then list.link.setPrev nodes next prev else nodes
      some (nodes,
        { list with
          first := if list.first = x then next else list.first
          last := if list.last = x then prev else list.last
          size := list.shrunk })

end DoublyLinkedList

section Nodes

variable {op : LinkOp} {list : IntrusiveList} {seq : List Nat} {x : Nat}

/-- A list is never longer than `Size` can count. -/
theorem length_lt (nodup : seq.Nodup) (linkable : ∀ x ∈ seq, op.Linkable x) :
    seq.length < 2 ^ op.word.bits := by
  have positive := Nat.two_pow_pos op.word.bits
  have inside : seq ⊆ List.range' 1 (2 ^ op.word.bits - 1) := by
    intro x member
    have bounds := linkable x member
    rw [List.mem_range'_1]
    exact ⟨bounds.1, by have := bounds.2.1; omega⟩
  have shorter := (nodup.subperm inside).length_le
  rw [List.length_range'] at shorter
  omega

theorem storable_head (linkable : ∀ x ∈ seq, op.Linkable x) : op.Storable (seq.headD 0) := by
  cases seq with
  | nil => exact LinkOp.storable_zero
  | cons x rest => exact (linkable x List.mem_cons_self).storable

theorem storable_last (linkable : ∀ x ∈ seq, op.Linkable x) : op.Storable (seq.getLastD 0) := by
  rcases List.eq_nil_or_concat' seq with rfl | ⟨front, x, rfl⟩
  · exact LinkOp.storable_zero
  · rw [List.getLastD_concat]
    exact (linkable x (by simp)).storable

/-- `Size++` does not wrap when another node comes to a list. -/
theorem IntrusiveList.grown_eq (size : list.size = seq.length) (nodup : (x :: seq).Nodup)
    (linkable : ∀ y ∈ x :: seq, list.link.Linkable y) : list.grown = list.size + 1 := by
  have bound := length_lt nodup linkable
  rw [List.length_cons, ← size] at bound
  exact wadd_eq bound

theorem IntrusiveList.shrunk_eq (size : list.size = seq.length) (nodup : seq.Nodup)
    (linkable : ∀ y ∈ seq, list.link.Linkable y) (filled : seq ≠ []) :
    list.shrunk = list.size - 1 := by
  have bound := length_lt nodup linkable
  have positive := List.length_pos_of_ne_nil filled
  rw [← size] at bound positive
  exact wsub_eq bound positive

end Nodes

section Frame

variable {nodes nodes' nodes'' : Links} {op : LinkOp} {x z value : Nat}

/-- The members of a node keep their values. -/
structure Untouched (nodes nodes' : Links) (z : Nat) : Prop where
  next : nodes'.next z = nodes.next z
  prev : nodes'.prev z = nodes.prev z

theorem Untouched.refl (nodes : Links) (z : Nat) : Untouched nodes nodes z := ⟨rfl, rfl⟩

theorem Untouched.trans (first : Untouched nodes nodes' z) (second : Untouched nodes' nodes'' z) :
    Untouched nodes nodes'' z :=
  ⟨second.next.trans first.next, second.prev.trans first.prev⟩

theorem untouched_setNext (other : z ≠ x) : Untouched nodes (op.setNext nodes x value) z :=
  ⟨Function.update_of_ne other _ _, rfl⟩

theorem untouched_setPrev (other : z ≠ x) : Untouched nodes (op.setPrev nodes x value) z :=
  ⟨rfl, Function.update_of_ne other _ _⟩

/-- An operation on one list, as the other lists see it. -/
structure Updated (nodes : Links) (list : IntrusiveList) (touched : List Nat) (nodes' : Links)
    (list' : IntrusiveList) : Prop where
  link : list'.link = list.link
  others : ∀ z, z ∉ touched → Untouched nodes nodes' z

theorem head_mem {seq : List Nat} (there : seq.headD 0 ≠ 0) : seq.headD 0 ∈ seq := by
  cases seq with
  | nil => exact absurd rfl there
  | cons x rest => exact List.mem_cons_self

theorem last_mem {seq : List Nat} (there : seq.getLastD 0 ≠ 0) : seq.getLastD 0 ∈ seq := by
  rcases List.eq_nil_or_concat' seq with rfl | ⟨front, x, rfl⟩
  · exact absurd rfl there
  · simp

end Frame

/-- The ends and the size, as a list of pointers that is linked both ways has them. -/
def IntrusiveList.ends (list : IntrusiveList) : InUseBlocks := ⟨list.first, list.last, list.size⟩

/-- The same for a list of pointers that is linked one way. -/
def IntrusiveList.oneWay (list : IntrusiveList) : AvailEntries :=
  ⟨list.first, list.last, list.size⟩

end Scudo.Intrusive
