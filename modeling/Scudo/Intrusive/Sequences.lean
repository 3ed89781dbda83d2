import Scudo.Intrusive.Doubly
import Scudo.Intrusive.Singly

/-!
Any number of lists over the same nodes, next to sequences of nodes that are changed by the same
operations. A node is on one list at most; the links of a node that is on none may be anything.
-/

namespace Scudo.Intrusive
open Scudo.Lib
open Scudo.Secondary (Links InUseBlocks)

/-- `SinglyLinkedList` or `DoublyLinkedList`. -/
inductive Linkage where
  | singly
  | doubly
  deriving DecidableEq, Repr

/-- An operation on list `i`, with its arguments in their order. -/
inductive Op (ι : Type*) where
  | pushFront (i : ι) (x : Nat)
  | pushBack (i : ι) (x : Nat)
  | popFront (i : ι)
  | insert (i : ι) (a b : Nat)
  | extract (i : ι) (prev x : Nat)
  | remove (i : ι) (x : Nat)
  | appendBack (i j : ι)
  | clear (i : ι)

section Sequences

variable {α : Type*} [DecidableEq α] {p n x : α} {left right : List α}

def insertBehind (p x : α) : List α → List α
  | [] => []
  | y :: rest => if y = p then y :: x :: rest else y :: insertBehind p x rest

def insertBefore (n x : α) : List α → List α
  | [] => []
  | y :: rest => if y = n then x :: y :: rest else y :: insertBefore n x rest

theorem insertBehind_append (notLeft : p ∉ left) :
    insertBehind p x (left ++ p :: right) = left ++ p :: x :: right := by
  induction left with
  | nil => exact if_pos rfl
  | cons y rest ih =>
    rw [List.mem_cons, not_or] at notLeft
    rw [List.cons_append, insertBehind, if_neg (Ne.symm notLeft.1), ih notLeft.2, List.cons_append]

theorem insertBefore_append (notLeft : n ∉ left) :
    insertBefore n x (left ++ n :: right) = left ++ x :: n :: right := by
  induction left with
  | nil => exact if_pos rfl
  | cons y rest ih =>
    rw [List.mem_cons, not_or] at notLeft
    rw [List.cons_append, insertBefore, if_neg (Ne.symm notLeft.1), ih notLeft.2, List.cons_append]

theorem erase_append (notLeft : x ∉ left) : (left ++ x :: right).erase x = left ++ right := by
  rw [List.erase_append_right _ notLeft, List.erase_cons_head]

end Sequences

variable {ι : Type*}

/-- The sequence of each list. -/
abbrev Sequences (ι : Type*) := ι → List Nat

namespace Sequences

/-- A node that list `i` can link and that is on no list. -/
def Free (links : ι → LinkOp) (seqs : Sequences ι) (i : ι) (x : Nat) : Prop :=
  (links i).Linkable x ∧ ∀ j, x ∉ seqs j

/-- What a caller has to know: new nodes are on no list, others are where they are named. -/
def Allowed (kind : ι → Linkage) (links : ι → LinkOp) (seqs : Sequences ι) : Op ι → Prop
  | .pushFront i x | .pushBack i x => Free links seqs i x
  | .popFront i => seqs i ≠ []
  | .insert i a b =>
      match kind i with
      | .singly => a ∈ seqs i ∧ Free links seqs i b
      | .doubly => b ∈ seqs i ∧ Free links seqs i a
  | .extract i prev x => kind i = .singly ∧ [prev, x] <:+: seqs i
  | .remove i x => kind i = .doubly ∧ x ∈ seqs i
  | .appendBack i j => kind i = .singly ∧ kind j = .singly ∧ i ≠ j ∧ links j = links i
  | .clear _ => True

variable [DecidableEq ι]

def apply (kind : ι → Linkage) (seqs : Sequences ι) : Op ι → Sequences ι
  | .pushFront i x => Function.update seqs i (x :: seqs i)
  | .pushBack i x => Function.update seqs i (seqs i ++ [x])
  | .popFront i => Function.update seqs i (seqs i).tail
  | .insert i a b =>
      Function.update seqs i
        (match kind i with
        | .singly => insertBehind a b (seqs i)
        | .doubly => insertBefore b a (seqs i))
  | .extract i _ x | .remove i x => Function.update seqs i ((seqs i).erase x)
  | .appendBack i j => Function.update (Function.update seqs i (seqs i ++ seqs j)) j []
  | .clear i => Function.update seqs i []

def run (kind : ι → Linkage) (seqs : Sequences ι) : List (Op ι) → Sequences ι
  | [] => seqs
  | op :: rest => run kind (apply kind seqs op) rest

def Allows (kind : ι → Linkage) (links : ι → LinkOp) (seqs : Sequences ι) : List (Op ι) → Prop
  | [] => True
  | op :: rest => Allowed kind links seqs op ∧ Allows kind links (apply kind seqs op) rest

end Sequences

/-- The members of all nodes, and the lists. -/
structure Lists (ι : Type*) where
  nodes : Links
  list : ι → IntrusiveList

namespace Lists

/-- All lists empty; the members of the nodes are anything. -/
def start (links : ι → LinkOp) (nodes : Links) : Lists ι where
  nodes := nodes
  list := fun i => ⟨links i, 0, 0, 0⟩

variable [DecidableEq ι]

def write (s : Lists ι) (i : ι) (result : Links × IntrusiveList) : Lists ι where
  nodes := result.1
  list := Function.update s.list i result.2

/-- `none` where a `CHECK` fails, or where the kind of list has no such operation. -/
def step (kind : ι → Linkage) (s : Lists ι) : Op ι → Option (Lists ι)
  | .pushFront i x =>
      match kind i with
      | .singly => some (s.write i (SinglyLinkedList.pushFront s.nodes (s.list i) x))
      | .doubly => some (s.write i (DoublyLinkedList.pushFront s.nodes (s.list i) x))
  | .pushBack i x =>
      match kind i with
      | .singly => some (s.write i (SinglyLinkedList.pushBack s.nodes (s.list i) x))
      | .doubly => some (s.write i (DoublyLinkedList.pushBack s.nodes (s.list i) x))
  | .popFront i =>
      match kind i with
      | .singly => some (s.write i (s.nodes, SinglyLinkedList.popFront s.nodes (s.list i)))
      | .doubly => some (s.write i (DoublyLinkedList.popFront s.nodes (s.list i)))
  | .insert i a b =>
      match kind i with
      | .singly => some (s.write i (SinglyLinkedList.insert s.nodes (s.list i) a b))
      | .doubly => (DoublyLinkedList.insert s.nodes (s.list i) a b).map (s.write i)
  | .extract i prev x =>
      match kind i with
      | .singly => some (s.write i (SinglyLinkedList.extract s.nodes (s.list i) prev x))
      | .doubly => none
  | .remove i x =>
      match kind i with
      | .singly => none
      | .doubly => (DoublyLinkedList.remove s.nodes (s.list i) x).map (s.write i)
  | .appendBack i j =>
      match kind i with
      | .singly =>
          let (nodes, list, other) := SinglyLinkedList.appendBack s.nodes (s.list i) (s.list j)
          some ⟨nodes, Function.update (Function.update s.list i list) j other⟩
      | .doubly => none
  | .clear i => some (s.write i (s.nodes, (s.list i).clear))

def run (kind : ι → Linkage) (s : Lists ι) : List (Op ι) → Option (Lists ι)
  | [] => some s
  | op :: rest =>
      match s.step kind op with
      | none => none
      | some s' => s'.run kind rest

end Lists

/-- The links form a list of exactly these nodes. -/
def Holds (kind : Linkage) (nodes : Links) (list : IntrusiveList) (seq : List Nat) : Prop :=
  match kind with
  | .singly => SinglyLinkedList.Holds nodes list seq
  | .doubly => DoublyLinkedList.Holds nodes list seq

/-- Each list holds its sequence, and no node is on two of them. -/
structure Represents (kind : ι → Linkage) (links : ι → LinkOp) (s : Lists ι)
    (seqs : Sequences ι) : Prop where
  link : ∀ i, (s.list i).link = links i
  holds : ∀ i, Holds (kind i) s.nodes (s.list i) (seqs i)
  apart : ∀ i j, i ≠ j → (seqs i).Disjoint (seqs j)

section Represents

variable {kind : ι → Linkage} {links : ι → LinkOp} {s : Lists ι} {seqs : Sequences ι} {i : ι}
  {nodes nodes' : Links} {list list' : IntrusiveList} {seq seq' touched : List Nat}
  {x : Nat}

/-- Only the members of its nodes matter to a list. -/
theorem Holds.congr {kind : Linkage} (holds : Holds kind nodes list seq)
    (untouched : ∀ z ∈ seq, Untouched nodes nodes' z) : Holds kind nodes' list seq := by
  have next : ∀ z ∈ seq, (list.link.decoded nodes').next z = (list.link.decoded nodes).next z :=
    fun z member => congrArg list.link.load (untouched z member).next
  have prev : ∀ z ∈ seq, (list.link.decoded nodes').prev z = (list.link.decoded nodes).prev z :=
    fun z member => congrArg list.link.load (untouched z member).prev
  cases kind with
  | singly => exact { holds with held := holds.held.congr next }
  | doubly => exact { holds with held := holds.held.congr next prev }

theorem holds_singly {kind : Linkage} (flavour : kind = .singly) :
    Holds kind nodes list seq ↔ SinglyLinkedList.Holds nodes list seq := by
  rw [flavour]
  rfl

theorem holds_doubly {kind : Linkage} (flavour : kind = .doubly) :
    Holds kind nodes list seq ↔ DoublyLinkedList.Holds nodes list seq := by
  rw [flavour]
  rfl

theorem Holds.nodup {kind : Linkage} (holds : Holds kind nodes list seq) : seq.Nodup := by
  cases kind with
  | singly => exact SinglyLinkedList.Holds.nodup holds
  | doubly => exact DoublyLinkedList.Holds.nodup holds

theorem Represents.linkable (represents : Represents kind links s seqs)
    (free : Sequences.Free links seqs i x) : (s.list i).link.Linkable x := by
  rw [represents.link i]
  exact free.1

/-- The nodes of a list are on no other one. -/
theorem Represents.others (represents : Represents kind links s seqs) (i : ι) :
    ∀ j, j ≠ i → (seqs i).Disjoint (seqs j) :=
  fun j different => represents.apart i j different.symm

/-- The nodes of a list, with a free one, are on no other list. -/
theorem Represents.outside (represents : Represents kind links s seqs)
    (free : Sequences.Free links seqs i x) :
    ∀ j, j ≠ i → (x :: seqs i).Disjoint (seqs j) := by
  intro j different
  rw [List.disjoint_cons_left]
  exact ⟨free.2 j, represents.apart i j different.symm⟩

/-- A node of a list, with what is before it and behind it. -/
theorem Represents.split (represents : Represents kind links s seqs) (member : x ∈ seqs i) :
    ∃ left right, seqs i = left ++ x :: right ∧ x ∉ left := by
  obtain ⟨left, right, shape⟩ := List.append_of_mem member
  refine ⟨left, right, shape, ?_⟩
  intro before
  have nodup := (represents.holds i).nodup
  rw [shape] at nodup
  exact (List.nodup_append.mp nodup).2.2 x before x List.mem_cons_self rfl

variable [DecidableEq ι]

/-- An operation on one list, that writes to its nodes and to a new one only. -/
theorem Represents.write (represents : Represents kind links s seqs)
    (holds : Holds (kind i) nodes' list' seq')
    (updated : Updated s.nodes (s.list i) touched nodes' list') (inside : seq' ⊆ touched)
    (outside : ∀ j, j ≠ i → touched.Disjoint (seqs j)) :
    Represents kind links (s.write i (nodes', list')) (Function.update seqs i seq') := by
  constructor
  · intro j
    unfold Lists.write
    dsimp only
    by_cases same : j = i
    · subst same
      rw [Function.update_self, updated.link]
      exact represents.link j
    · rw [Function.update_of_ne same]
      exact represents.link j
  · intro j
    unfold Lists.write
    dsimp only
    by_cases same : j = i
    · subst same
      rw [Function.update_self, Function.update_self]
      exact holds
    · rw [Function.update_of_ne same, Function.update_of_ne same]
      refine (represents.holds j).congr ?_
      intro z member
      exact updated.others z fun written => outside j same written member
  · intro j k different
    by_cases first : j = i
    · subst first
      rw [Function.update_self, Function.update_of_ne different.symm]
      exact fun z member => outside k different.symm (inside member)
    · rw [Function.update_of_ne first]
      by_cases second : k = i
      · subst second
        rw [Function.update_self]
        exact fun z member new => outside j first (inside new) member
      · rw [Function.update_of_ne second]
        exact represents.apart j k different

end Represents

end Scudo.Intrusive
