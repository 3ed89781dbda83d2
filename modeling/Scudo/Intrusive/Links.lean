import Mathlib.Data.List.Nodup
import Mathlib.Data.List.Perm.Subperm
import Scudo.Secondary.Slots
import Scudo.Secondary.Types

/-!
`LinkOp`: how the members `Next` and `Prev` of a node name another node. They are pointers, or
indices into an array of nodes with one value set apart as the end of a list.
-/

namespace Scudo.Intrusive
open Scudo.Secondary (WordSize Links)

/-- The type of `Next` and `Prev`; an index type comes with `EndOfListVal` and `sizeof(T)`. -/
inductive LinkTy where
  | pointer
  | index (bits endOfListVal sizeofT : Nat)
  deriving DecidableEq, Repr

structure LinkOp where
  word : WordSize
  type : LinkTy
  /-- `Base` and `Size`, which are only used with an index type. -/
  base : Nat
  size : Nat
  deriving DecidableEq, Repr

namespace LinkOp

def init (op : LinkOp) (linkBase baseSize : Nat) : LinkOp :=
  match op.type with
  | .pointer => op
  | .index bits _ _ => { op with base := linkBase, size := wrap bits baseSize }

/-- What a link names, 0 for the null pointer. -/
def load (op : LinkOp) (link : Nat) : Nat :=
  match op.type with
  | .pointer => link
  | .index _ endOfListVal sizeofT =>
      if link = endOfListVal then 0 else wadd op.word.bits op.base (link * sizeofT)

/-- The link that names a node. -/
def store (op : LinkOp) (x : Nat) : Nat :=
  match op.type with
  | .pointer => x
  | .index bits endOfListVal sizeofT =>
      if x = 0 then endOfListVal else wrap bits ((x - op.base) / sizeofT)

def getNext (op : LinkOp) (nodes : Links) (x : Nat) : Nat := op.load (nodes.next x)

def setNext (op : LinkOp) (nodes : Links) (x next : Nat) : Links := nodes.setNext x (op.store next)

def getPrev (op : LinkOp) (nodes : Links) (x : Nat) : Nat := op.load (nodes.prev x)

def setPrev (op : LinkOp) (nodes : Links) (x prev : Nat) : Links := nodes.setPrev x (op.store prev)

/-- An address, and for an index the address of an element of which the index is a value of the
type and not the end of a list. -/
def Linkable (op : LinkOp) (x : Nat) : Prop :=
  0 < x ∧ x < 2 ^ op.word.bits ∧
    match op.type with
    | .pointer => True
    | .index bits endOfListVal sizeofT =>
        0 < sizeofT ∧ ∃ k < 2 ^ bits, k ≠ endOfListVal ∧ x = op.base + k * sizeofT

variable {op : LinkOp} {nodes : Links} {x y next prev : Nat}

theorem Linkable.ne_zero (linkable : op.Linkable x) : x ≠ 0 := linkable.1.ne'

/-- A link that was written names the same node. -/
theorem Linkable.load_store (linkable : op.Linkable x) : op.load (op.store x) = x := by
  obtain ⟨positive, bound, element⟩ := linkable
  cases type : op.type with
  | pointer =>
    unfold load store
    rw [type]
  | index bits endOfListVal sizeofT =>
    rw [type] at element
    obtain ⟨size, k, small, notEnd, place⟩ := element
    have number : (x - op.base) / sizeofT = k := by
      rw [place, Nat.add_sub_cancel_left, Nat.mul_div_cancel _ size]
    have stored : op.store x = k := by
      unfold store
      rw [type]
      dsimp only
      rw [if_neg positive.ne', number, wrap_eq small]
    rw [stored]
    unfold load
    rw [type]
    dsimp only
    rw [if_neg notEnd]
    exact (wadd_eq (place ▸ bound)).trans place.symm

/-- So does the end of a list. -/
theorem load_store_zero (op : LinkOp) : op.load (op.store 0) = 0 := by
  cases type : op.type with
  | pointer =>
    unfold load store
    rw [type]
  | index bits endOfListVal sizeofT =>
    have stored : op.store 0 = endOfListVal := by
      unfold store
      rw [type]
      exact if_pos rfl
    rw [stored]
    unfold load
    rw [type]
    exact if_pos rfl

/-- What can be written to a link. -/
def Storable (op : LinkOp) (x : Nat) : Prop := x = 0 ∨ op.Linkable x

theorem Linkable.storable (linkable : op.Linkable x) : op.Storable x := Or.inr linkable

theorem storable_zero : op.Storable 0 := Or.inl rfl

theorem Storable.load_store (storable : op.Storable x) : op.load (op.store x) = x := by
  rcases storable with rfl | linkable
  · exact load_store_zero op
  · exact linkable.load_store

/-- The links as the nodes that they name. -/
def decoded (op : LinkOp) (nodes : Links) : Links := ⟨op.getNext nodes, op.getPrev nodes⟩

theorem Storable.load_update (storable : op.Storable next) (links : Nat → Nat) (x : Nat) :
    (fun y => op.load (Function.update links x (op.store next) y)) =
      Function.update (fun y => op.load (links y)) x next := by
  funext y
  rw [Function.update_apply, Function.update_apply]
  split_ifs
  · exact storable.load_store
  · rfl

/-- Through `LinkOp` every kind of link behaves like a pointer. -/
theorem decoded_setNext (storable : op.Storable next) :
    op.decoded (op.setNext nodes x next) = (op.decoded nodes).setNext x next := by
  have written : op.getNext (op.setNext nodes x next) =
      Function.update (op.getNext nodes) x next := storable.load_update nodes.next x
  unfold decoded
  rw [written]
  rfl

theorem decoded_setPrev (storable : op.Storable prev) :
    op.decoded (op.setPrev nodes x prev) = (op.decoded nodes).setPrev x prev := by
  have written : op.getPrev (op.setPrev nodes x prev) =
      Function.update (op.getPrev nodes) x prev := storable.load_update nodes.prev x
  unfold decoded
  rw [written]
  rfl

end LinkOp

end Scudo.Intrusive
