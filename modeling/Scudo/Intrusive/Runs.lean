import Scudo.Intrusive.Sequences

/-!
The lists through any sequence of operations: every step changes a list as it changes its sequence.
-/

namespace Scudo.Intrusive
open Scudo.Lib
open Scudo.Secondary (Links InUseBlocks)

variable {ι : Type*}

section Step

variable {kind : ι → Linkage} {links : ι → LinkOp} {s : Lists ι} {seqs : Sequences ι} {i j : ι}
  {list' : IntrusiveList} {seq' touched : List Nat} {x prev y : Nat} {op : Op ι}
  {result : Links × IntrusiveList}

theorem start_represents (kind : ι → Linkage) (links : ι → LinkOp) (nodes : Links) :
    Represents kind links (Lists.start links nodes) fun _ => [] := by
  refine ⟨fun _ => rfl, ?_, fun _ _ _ => List.disjoint_nil_left _⟩
  intro i
  cases flavour : kind i with
  | singly => exact SinglyLinkedList.clear_holds nodes ⟨links i, 0, 0, 0⟩
  | doubly => exact DoublyLinkedList.clear_holds nodes ⟨links i, 0, 0, 0⟩

variable [DecidableEq ι]

/-- A step that has a result, after which the lists hold the changed sequences. -/
def Follows (kind : ι → Linkage) (links : ι → LinkOp) (s : Lists ι) (seqs : Sequences ι)
    (op : Op ι) : Prop :=
  ∃ s', s.step kind op = some s' ∧ Represents kind links s' (Sequences.apply kind seqs op)

theorem Represents.follows (represents : Represents kind links s seqs)
    (stepped : s.step kind op = some (s.write i result))
    (applied : Sequences.apply kind seqs op = Function.update seqs i seq')
    (holds : Holds (kind i) result.1 result.2 seq')
    (updated : Updated s.nodes (s.list i) touched result.1 result.2) (inside : seq' ⊆ touched)
    (outside : ∀ j, j ≠ i → touched.Disjoint (seqs j)) : Follows kind links s seqs op := by
  refine ⟨_, stepped, ?_⟩
  rw [applied]
  exact represents.write holds updated inside outside

theorem Represents.pushFront (represents : Represents kind links s seqs)
    (free : Sequences.Free links seqs i x) : Follows kind links s seqs (.pushFront i x) := by
  have new := represents.linkable free
  have outside := represents.outside free
  cases flavour : kind i with
  | singly =>
    have holds := (holds_singly flavour).mp (represents.holds i)
    have stepped : s.step kind (.pushFront i x) =
        some (s.write i (SinglyLinkedList.pushFront s.nodes (s.list i) x)) := by
      simp only [Lists.step, flavour]
    have pushed := SinglyLinkedList.pushFront_holds holds new (free.2 i)
    exact represents.follows stepped rfl ((holds_singly flavour).mpr pushed)
      (SinglyLinkedList.pushFront_updated s.nodes (s.list i) (seqs i) x) (List.Subset.refl _)
      outside
  | doubly =>
    have holds := (holds_doubly flavour).mp (represents.holds i)
    have stepped : s.step kind (.pushFront i x) =
        some (s.write i (DoublyLinkedList.pushFront s.nodes (s.list i) x)) := by
      simp only [Lists.step, flavour]
    have pushed := DoublyLinkedList.pushFront_holds holds new (free.2 i)
    exact represents.follows stepped rfl ((holds_doubly flavour).mpr pushed)
      (DoublyLinkedList.pushFront_updated holds) (List.Subset.refl _) outside

theorem Represents.pushBack (represents : Represents kind links s seqs)
    (free : Sequences.Free links seqs i x) : Follows kind links s seqs (.pushBack i x) := by
  have new := represents.linkable free
  have outside := represents.outside free
  have inside : seqs i ++ [x] ⊆ x :: seqs i := (List.perm_append_singleton x (seqs i)).subset
  cases flavour : kind i with
  | singly =>
    have holds := (holds_singly flavour).mp (represents.holds i)
    have stepped : s.step kind (.pushBack i x) =
        some (s.write i (SinglyLinkedList.pushBack s.nodes (s.list i) x)) := by
      simp only [Lists.step, flavour]
    have pushed := SinglyLinkedList.pushBack_holds holds new (free.2 i)
    exact represents.follows stepped rfl ((holds_singly flavour).mpr pushed)
      (SinglyLinkedList.pushBack_updated holds) inside outside
  | doubly =>
    have holds := (holds_doubly flavour).mp (represents.holds i)
    have stepped : s.step kind (.pushBack i x) =
        some (s.write i (DoublyLinkedList.pushBack s.nodes (s.list i) x)) := by
      simp only [Lists.step, flavour]
    have pushed := DoublyLinkedList.pushBack_holds holds new (free.2 i)
    exact represents.follows stepped rfl ((holds_doubly flavour).mpr pushed)
      (DoublyLinkedList.pushBack_updated holds) inside outside

theorem Represents.popFront (represents : Represents kind links s seqs) (filled : seqs i ≠ []) :
    Follows kind links s seqs (.popFront i) := by
  have holds := represents.holds i
  have outside := represents.others i
  obtain ⟨x, rest, shape⟩ := List.exists_cons_of_ne_nil filled
  have tail : (seqs i).tail = rest := by rw [shape, List.tail_cons]
  have applied : Sequences.apply kind seqs (.popFront i) = Function.update seqs i rest :=
    congrArg (Function.update seqs i) tail
  have inside : rest ⊆ seqs i := by
    rw [shape]
    exact List.subset_cons_self x rest
  rw [shape] at holds
  cases flavour : kind i with
  | singly =>
    have stepped : s.step kind (.popFront i) =
        some (s.write i (s.nodes, SinglyLinkedList.popFront s.nodes (s.list i))) := by
      simp only [Lists.step, flavour]
    have popped := SinglyLinkedList.popFront_holds ((holds_singly flavour).mp holds)
    exact represents.follows stepped applied ((holds_singly flavour).mpr popped)
      ⟨rfl, fun z _ => Untouched.refl _ z⟩ inside outside
  | doubly =>
    have stepped : s.step kind (.popFront i) =
        some (s.write i (DoublyLinkedList.popFront s.nodes (s.list i))) := by
      simp only [Lists.step, flavour]
    obtain ⟨popped, updated⟩ := DoublyLinkedList.popFront_holds ((holds_doubly flavour).mp holds)
    rw [← shape] at updated
    exact represents.follows stepped applied ((holds_doubly flavour).mpr popped) updated inside
      outside

theorem Represents.insertSingly (represents : Represents kind links s seqs)
    (flavour : kind i = .singly) (member : prev ∈ seqs i) (free : Sequences.Free links seqs i x) :
    Follows kind links s seqs (.insert i prev x) := by
  have holds := (holds_singly flavour).mp (represents.holds i)
  have fresh := free.2 i
  obtain ⟨left, right, shape, notLeft⟩ := represents.split member
  have inserted : insertBehind prev x (seqs i) = left ++ prev :: x :: right := by
    rw [shape, insertBehind_append notLeft]
  have applied : Sequences.apply kind seqs (.insert i prev x) =
      Function.update seqs i (left ++ prev :: x :: right) := by
    simp only [Sequences.apply, flavour, inserted]
  have inside : left ++ prev :: x :: right ⊆ x :: seqs i := by
    rw [shape]
    intro z
    simp only [List.mem_append, List.mem_cons]
    tauto
  have stepped : s.step kind (.insert i prev x) =
      some (s.write i (SinglyLinkedList.insert s.nodes (s.list i) prev x)) := by
    simp only [Lists.step, flavour]
  have updated := @SinglyLinkedList.insert_updated s.nodes (s.list i) (seqs i) x prev member
  rw [shape] at holds fresh
  have held := SinglyLinkedList.insert_holds holds (represents.linkable free) fresh
  exact represents.follows stepped applied ((holds_singly flavour).mpr held) updated inside
    (represents.outside free)

theorem Represents.insertDoubly (represents : Represents kind links s seqs)
    (flavour : kind i = .doubly) (member : y ∈ seqs i) (free : Sequences.Free links seqs i x) :
    Follows kind links s seqs (.insert i x y) := by
  have holds := (holds_doubly flavour).mp (represents.holds i)
  have fresh := free.2 i
  obtain ⟨left, right, shape, notLeft⟩ := represents.split member
  have inserted : insertBefore y x (seqs i) = left ++ x :: y :: right := by
    rw [shape, insertBefore_append notLeft]
  have applied : Sequences.apply kind seqs (.insert i x y) =
      Function.update seqs i (left ++ x :: y :: right) := by
    simp only [Sequences.apply, flavour, inserted]
  have inside : left ++ x :: y :: right ⊆ x :: seqs i := by
    rw [shape]
    intro z
    simp only [List.mem_append, List.mem_cons]
    tauto
  rw [shape] at holds fresh
  obtain ⟨nodes', list', result, held, updated⟩ :=
    DoublyLinkedList.insert_holds holds (represents.linkable free) fresh
  rw [← shape] at updated
  have stepped : s.step kind (.insert i x y) = some (s.write i (nodes', list')) := by
    simp only [Lists.step, flavour, result, Option.map_some]
  exact represents.follows stepped applied ((holds_doubly flavour).mpr held) updated inside
    (represents.outside free)

theorem Represents.extract (represents : Represents kind links s seqs) (flavour : kind i = .singly)
    (adjacent : [prev, x] <:+: seqs i) : Follows kind links s seqs (.extract i prev x) := by
  have holds := (holds_singly flavour).mp (represents.holds i)
  have nodup := holds.nodup
  obtain ⟨left, right, shape⟩ := adjacent
  have split : seqs i = left ++ prev :: x :: right := by
    rw [← shape]
    simp
  have before : left ++ prev :: x :: right = left ++ [prev] ++ x :: right := by simp
  have notBefore : x ∉ left ++ [prev] := by
    rw [split, before] at nodup
    exact fun member => (List.nodup_append.mp nodup).2.2 x member x List.mem_cons_self rfl
  have erased : (seqs i).erase x = left ++ prev :: right := by
    rw [split, before, erase_append notBefore, List.append_assoc]
    rfl
  have inside : left ++ prev :: right ⊆ seqs i := by
    rw [← erased]
    exact List.erase_subset
  have member : prev ∈ seqs i := by
    rw [split]
    simp
  have stepped : s.step kind (.extract i prev x) =
      some (s.write i (SinglyLinkedList.extract s.nodes (s.list i) prev x)) := by
    simp only [Lists.step, flavour]
  have updated := @SinglyLinkedList.extract_updated s.nodes (s.list i) (seqs i) x prev member
  rw [split] at holds
  have held := SinglyLinkedList.extract_holds holds
  exact represents.follows stepped (congrArg (Function.update seqs i) erased)
    ((holds_singly flavour).mpr held) updated inside (represents.others i)

theorem Represents.remove (represents : Represents kind links s seqs) (flavour : kind i = .doubly)
    (member : x ∈ seqs i) : Follows kind links s seqs (.remove i x) := by
  have holds := (holds_doubly flavour).mp (represents.holds i)
  obtain ⟨left, right, shape, notLeft⟩ := represents.split member
  have erased : (seqs i).erase x = left ++ right := by rw [shape, erase_append notLeft]
  have inside : left ++ right ⊆ seqs i := by
    rw [← erased]
    exact List.erase_subset
  rw [shape] at holds
  obtain ⟨nodes', list', result, held, updated⟩ := DoublyLinkedList.remove_holds holds
  rw [← shape] at updated
  have stepped : s.step kind (.remove i x) = some (s.write i (nodes', list')) := by
    simp only [Lists.step, flavour, result, Option.map_some]
  exact represents.follows stepped (congrArg (Function.update seqs i) erased)
    ((holds_doubly flavour).mpr held) updated inside (represents.others i)

theorem Represents.clear (represents : Represents kind links s seqs) (i : ι) :
    Follows kind links s seqs (.clear i) := by
  have held : Holds (kind i) s.nodes (s.list i).clear [] := by
    cases flavour : kind i with
    | singly => exact SinglyLinkedList.clear_holds s.nodes (s.list i)
    | doubly => exact DoublyLinkedList.clear_holds s.nodes (s.list i)
  have stepped : s.step kind (.clear i) = some (s.write i (s.nodes, (s.list i).clear)) := rfl
  have updated : Updated s.nodes (s.list i) (seqs i) s.nodes (s.list i).clear :=
    ⟨rfl, fun z _ => Untouched.refl _ z⟩
  exact represents.follows stepped rfl held updated (List.nil_subset _) (represents.others i)

theorem mem_appendBack {z : Nat} {k : ι}
    (member : z ∈ Sequences.apply kind seqs (.appendBack i j) k) :
    k ≠ j ∧ (z ∈ seqs k ∨ k = i ∧ z ∈ seqs j) := by
  unfold Sequences.apply at member
  dsimp only at member
  rw [Function.update_apply, Function.update_apply] at member
  split_ifs at member with isJ isI
  · cases member
  · subst isI
    exact ⟨isJ, (List.mem_append.mp member).imp id fun moved => ⟨rfl, moved⟩⟩
  · exact ⟨isJ, Or.inl member⟩

/-- The nodes of one list come behind those of another one. -/
theorem Represents.appendBack (represents : Represents kind links s seqs)
    (flavour : kind i = .singly) (flavour' : kind j = .singly) (different : i ≠ j)
    (link : links j = links i) : Follows kind links s seqs (.appendBack i j) := by
  have holds := (holds_singly flavour).mp (represents.holds i)
  have source := (holds_singly flavour').mp (represents.holds j)
  have sameLink : (s.list j).link = (s.list i).link := by
    rw [represents.link, represents.link, link]
  obtain ⟨nodes', list', other', result, held, emptied, updated, kept⟩ :=
    SinglyLinkedList.appendBack_holds holds source sameLink (represents.apart i j different)
  have stepped : s.step kind (.appendBack i j) =
      some ⟨nodes', Function.update (Function.update s.list i list') j other'⟩ := by
    simp only [Lists.step, flavour, result]
  refine ⟨_, stepped, ?_, ?_, ?_⟩
  · intro k
    dsimp only
    rw [Function.update_apply, Function.update_apply]
    split_ifs with isJ isI
    · rw [kept, isJ, represents.link]
    · rw [updated.link, isI, represents.link]
    · exact represents.link k
  · intro k
    unfold Sequences.apply
    dsimp only
    rw [Function.update_apply, Function.update_apply, Function.update_apply,
      Function.update_apply]
    split_ifs with isJ isI
    · subst isJ
      exact (holds_singly flavour').mpr emptied
    · subst isI
      exact (holds_singly flavour).mpr held
    · refine (represents.holds k).congr ?_
      intro z member
      exact updated.others z (represents.apart k i isI member)
  · intro k l apart z inK inL
    rcases mem_appendBack inK with ⟨notJ, own | ⟨isI, moved⟩⟩
    · rcases mem_appendBack inL with ⟨_, own' | ⟨_, moved⟩⟩
      · exact represents.apart k l apart own own'
      · exact represents.apart k j notJ own moved
    · rcases mem_appendBack inL with ⟨notJ', own | ⟨isI', _⟩⟩
      · exact represents.apart l j notJ' own moved
      · exact apart (isI.trans isI'.symm)

/-- One step of a caller that keeps to what it has to know. -/
theorem Represents.step (represents : Represents kind links s seqs)
    (allowed : Sequences.Allowed kind links seqs op) : Follows kind links s seqs op := by
  cases op with
  | pushFront i x => exact represents.pushFront allowed
  | pushBack i x => exact represents.pushBack allowed
  | popFront i => exact represents.popFront allowed
  | insert i a b =>
    unfold Sequences.Allowed at allowed
    dsimp only at allowed
    cases flavour : kind i with
    | singly =>
      rw [flavour] at allowed
      exact represents.insertSingly flavour allowed.1 allowed.2
    | doubly =>
      rw [flavour] at allowed
      exact represents.insertDoubly flavour allowed.1 allowed.2
  | extract i prev x => exact represents.extract allowed.1 allowed.2
  | remove i x => exact represents.remove allowed.1 allowed.2
  | appendBack i j =>
    exact represents.appendBack allowed.1 allowed.2.1 allowed.2.2.1 allowed.2.2.2
  | clear i => exact represents.clear i

theorem Represents.run {ops : List (Op ι)} (represents : Represents kind links s seqs)
    (allows : Sequences.Allows kind links seqs ops) :
    ∃ s', s.run kind ops = some s' ∧
      Represents kind links s' (Sequences.run kind seqs ops) := by
  induction ops generalizing s seqs with
  | nil => exact ⟨s, rfl, represents⟩
  | cons op rest ih =>
    obtain ⟨next, stepped, represents'⟩ := represents.step allows.1
    obtain ⟨last, ran, final⟩ := ih represents' allows.2
    refine ⟨last, ?_, final⟩
    unfold Lists.run
    rw [stepped]
    exact ran

end Step

/-- What a user of a list sees: an iteration from `First` meets the nodes of the sequence and ends,
`Last` and `Size` belong to it, and `Prev` leads back. -/
structure Shows (kind : Linkage) (nodes : Links) (list : IntrusiveList) (seq : List Nat) : Prop where
  reached : ∀ count, seq.length < count → list.walk nodes count list.first = seq
  last : list.last = seq.getLastD 0
  size : list.size = seq.length
  back : kind = .doubly →
    Linked (list.link.getNext nodes) (list.link.getPrev nodes) 0 seq 0

theorem Holds.shows {kind : Linkage} {nodes : Links} {list : IntrusiveList} {seq : List Nat}
    (holds : Holds kind nodes list seq) : Shows kind nodes list seq := by
  have reached (chained : Chained (list.link.decoded nodes).next seq 0)
      (first : list.first = seq.headD 0) (linkable : ∀ x ∈ seq, list.link.Linkable x) (count : Nat)
      (enough : seq.length < count) : list.walk nodes count list.first = seq := by
    rw [first]
    exact InUseBlocks.Chained.chain_eq chained (fun x member => (linkable x member).ne_zero) enough
  cases kind with
  | singly =>
    have single : SinglyLinkedList.Holds nodes list seq := holds
    exact ⟨reached single.held.chained single.first single.linkable, single.last, single.size,
      nofun⟩
  | doubly =>
    have double : DoublyLinkedList.Holds nodes list seq := holds
    exact ⟨reached double.held.linked.chained double.first double.linkable, double.last,
      double.held.size, fun _ => double.held.linked⟩

/-- In every run that pushes and inserts nodes that are on no list, no `CHECK` fails, and the lists
are the sequences. -/
theorem lists_are_sequences [DecidableEq ι] (kind : ι → Linkage) (links : ι → LinkOp) (nodes : Links)
    (ops : List (Op ι)) (allows : Sequences.Allows kind links (fun _ => []) ops) :
    ∃ s, (Lists.start links nodes).run kind ops = some s ∧
      ∀ i, Shows (kind i) s.nodes (s.list i) (Sequences.run kind (fun _ => []) ops i) := by
  obtain ⟨s, ran, represents⟩ := (start_represents kind links nodes).run allows
  exact ⟨s, ran, fun i => (represents.holds i).shows⟩

/-- A list of an array that is linked both ways, and two that are linked one way, with nodes that
move from one to the other and a `u16` index. -/
theorem lists_are_sequences_indexed :
    let link : LinkOp := ⟨.w64, .index 16 65535 40, 4096, 8⟩
    let kind : Fin 3 → Linkage := fun i => if i = 0 then .doubly else .singly
    let ops : List (Op (Fin 3)) :=
      [.pushBack 0 4096, .insert 0 4136 4096, .pushFront 0 4176, .remove 0 4096, .popFront 0,
        .pushBack 1 4176, .insert 1 4176 4096, .extract 1 4176 4096, .pushFront 2 4096,
        .appendBack 2 1, .clear 1]
    ∃ s, (Lists.start (fun _ => link) ⟨fun _ => 7, fun _ => 9⟩).run kind ops = some s ∧
      Shows .doubly s.nodes (s.list 0) [4136] ∧ Shows .singly s.nodes (s.list 2) [4096, 4176] := by
  intro link kind ops
  have linkable : ∀ k < 8, link.Linkable (4096 + k * 40) := by
    intro k small
    refine ⟨by omega, ?_, by decide, k, ?_, ?_, rfl⟩
    · change 4096 + k * 40 < 2 ^ 64
      omega
    · omega
    · omega
  have filled : Sequences.run kind (fun _ => []) (ops.take 4) 0 ≠ [] := by decide
  have allows : Sequences.Allows kind (fun _ => link) (fun _ => []) ops := by
    refine ⟨⟨linkable 0 (by decide), by decide⟩, ⟨by decide, linkable 1 (by decide), by decide⟩,
      ⟨linkable 2 (by decide), by decide⟩, ⟨by decide, by decide⟩, filled,
      ⟨linkable 2 (by decide), by decide⟩, ⟨by decide, linkable 0 (by decide), by decide⟩,
      ⟨by decide, by decide⟩, ⟨linkable 0 (by decide), by decide⟩,
      ⟨by decide, by decide, by decide, rfl⟩, trivial, trivial⟩
  obtain ⟨s, ran, shows⟩ := lists_are_sequences kind (fun _ => link) ⟨fun _ => 7, fun _ => 9⟩ ops
    allows
  exact ⟨s, ran, shows 0, shows 2⟩

end Scudo.Intrusive
