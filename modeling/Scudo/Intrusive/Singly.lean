import Scudo.Intrusive.Lists

/-!
One operation on a list that is linked one way, or on two of them.
-/

namespace Scudo.Intrusive
open Scudo.Lib
open Scudo.Secondary (Links AvailEntries)

variable {nodes : Links} {list other : IntrusiveList} {seq behind left right : List Nat}
  {x prev z : Nat}

namespace SinglyLinkedList

/-- The links form a list of exactly these nodes. -/
structure Holds (nodes : Links) (list : IntrusiveList) (seq : List Nat) : Prop where
  held : AvailEntries.Holds (list.link.decoded nodes) list.oneWay seq
  linkable : ∀ x ∈ seq, list.link.Linkable x
  nodup : seq.Nodup

theorem Holds.first (holds : Holds nodes list seq) : list.first = seq.headD 0 := holds.held.first

theorem Holds.last (holds : Holds nodes list seq) : list.last = seq.getLastD 0 := holds.held.last

theorem Holds.size (holds : Holds nodes list seq) : list.size = seq.length := holds.held.size

theorem Holds.empty_iff (holds : Holds nodes list seq) : list.empty = true ↔ seq = [] :=
  holds.held.empty_iff

theorem Holds.cons_linkable (holds : Holds nodes list seq) (new : list.link.Linkable x) :
    ∀ y ∈ x :: seq, list.link.Linkable y := by
  intro y member
  rcases List.mem_cons.mp member with rfl | old
  · exact new
  · exact holds.linkable y old

/-- `Size++` and `Size--` do not wrap. -/
theorem Holds.grown_eq (holds : Holds nodes list seq) (new : list.link.Linkable x)
    (fresh : x ∉ seq) : list.grown = list.size + 1 :=
  IntrusiveList.grown_eq holds.size (List.nodup_cons.mpr ⟨fresh, holds.nodup⟩)
    (holds.cons_linkable new)

theorem Holds.shrunk_eq (holds : Holds nodes list seq) (filled : seq ≠ []) :
    list.shrunk = list.size - 1 :=
  IntrusiveList.shrunk_eq holds.size holds.nodup holds.linkable filled

/-- Nodes outside of a list are not its last one. -/
theorem Holds.last_ne (holds : Holds nodes list seq) (outside : z ∉ seq)
    (filled : list.empty = false) : z ≠ list.last := by
  have filledSeq : seq ≠ [] := by
    rintro rfl
    rw [holds.empty_iff.mpr rfl] at filled
    cases filled
  obtain ⟨front, y, rfl⟩ := (List.eq_nil_or_concat' seq).resolve_left filledSeq
  rw [holds.last, List.getLastD_concat]
  rintro rfl
  exact outside (by simp)

theorem pushBack_decoded (new : list.link.Storable x) :
    list.link.decoded (pushBack nodes list x).1 =
      (AvailEntries.pushBack (list.link.decoded nodes) list.oneWay x).1 := by
  unfold pushBack AvailEntries.pushBack
  dsimp only
  rw [apply_ite list.link.decoded, LinkOp.decoded_setNext new,
    LinkOp.decoded_setNext LinkOp.storable_zero]
  rfl

theorem pushBack_holds (holds : Holds nodes list seq) (new : list.link.Linkable x)
    (fresh : x ∉ seq) :
    Holds (pushBack nodes list x).1 (pushBack nodes list x).2 (seq ++ [x]) := by
  have ends : (pushBack nodes list x).2.oneWay =
      (AvailEntries.pushBack (list.link.decoded nodes) list.oneWay x).2 := by
    unfold pushBack IntrusiveList.oneWay AvailEntries.pushBack
    rw [holds.grown_eq new fresh]
    rfl
  have link : (pushBack nodes list x).2.link = list.link := rfl
  have moved : (seq ++ [x]).Perm (x :: seq) := List.perm_append_singleton x seq
  constructor
  · rw [link, pushBack_decoded new.storable, ends]
    exact AvailEntries.pushBack_holds holds.held fresh holds.nodup
  · exact fun y member => holds.cons_linkable new y (moved.mem_iff.mp member)
  · exact moved.nodup_iff.mpr (List.nodup_cons.mpr ⟨fresh, holds.nodup⟩)

theorem pushBack_updated (holds : Holds nodes list seq) :
    Updated nodes list (x :: seq) (pushBack nodes list x).1 (pushBack nodes list x).2 := by
  refine ⟨rfl, ?_⟩
  intro z outside
  obtain ⟨notNew, notOld⟩ := List.ne_and_not_mem_of_not_mem_cons outside
  unfold pushBack
  dsimp only
  cases empty : list.empty with
  | true => exact untouched_setNext notNew
  | false => exact (untouched_setNext notNew).trans (untouched_setNext (holds.last_ne notOld empty))

theorem pushFront_holds (holds : Holds nodes list seq) (new : list.link.Linkable x)
    (fresh : x ∉ seq) :
    Holds (pushFront nodes list x).1 (pushFront nodes list x).2 (x :: seq) := by
  have first : list.link.Storable list.first := holds.first ▸ storable_head holds.linkable
  have written : list.link.decoded (pushFront nodes list x).1 =
      (AvailEntries.pushFront (list.link.decoded nodes) list.oneWay x).1 :=
    LinkOp.decoded_setNext first
  have ends : (pushFront nodes list x).2.oneWay =
      (AvailEntries.pushFront (list.link.decoded nodes) list.oneWay x).2 := by
    unfold pushFront IntrusiveList.oneWay AvailEntries.pushFront
    rw [holds.grown_eq new fresh]
    rfl
  have link : (pushFront nodes list x).2.link = list.link := rfl
  constructor
  · rw [link, written, ends]
    exact AvailEntries.pushFront_holds holds.held fresh
  · exact holds.cons_linkable new
  · exact List.nodup_cons.mpr ⟨fresh, holds.nodup⟩

theorem pushFront_updated (nodes : Links) (list : IntrusiveList) (seq : List Nat) (x : Nat) :
    Updated nodes list (x :: seq) (pushFront nodes list x).1 (pushFront nodes list x).2 := by
  refine ⟨rfl, ?_⟩
  intro z outside
  exact untouched_setNext (List.ne_of_not_mem_cons outside)

theorem popFront_holds (holds : Holds nodes list (x :: seq)) :
    Holds nodes (popFront nodes list) seq := by
  have linkable : ∀ y ∈ seq, list.link.Linkable y :=
    fun y member => holds.linkable y (List.mem_cons_of_mem _ member)
  have ends : (popFront nodes list).oneWay =
      AvailEntries.popFront (list.link.decoded nodes) list.oneWay := by
    unfold popFront IntrusiveList.oneWay AvailEntries.popFront
    rw [holds.shrunk_eq (List.cons_ne_nil x seq)]
    rfl
  have link : (popFront nodes list).link = list.link := rfl
  refine ⟨?_, linkable, (List.nodup_cons.mp holds.nodup).2⟩
  rw [link, ends]
  exact AvailEntries.popFront_holds holds.held fun y member => (linkable y member).ne_zero

/-- The link of a node in the list. -/
theorem Holds.getNext_eq (holds : Holds nodes list (left ++ x :: right)) :
    list.link.getNext nodes x = right.headD 0 :=
  (chained_append.mp holds.held.chained).2.1

/-- The nodes whose links stay when the one of `prev` is written. -/
theorem others_ne {y : Nat} (nodup : (left ++ [prev] ++ right).Nodup)
    (member : y ∈ (left ++ [prev]).dropLast ++ right) :
    y ∈ left ++ [prev] ++ right ∧ y ≠ prev := by
  rw [List.dropLast_concat] at member
  have moved : (left ++ [prev] ++ right).Perm (prev :: (left ++ right)) := by
    rw [List.append_assoc]
    exact List.perm_middle
  refine ⟨moved.mem_iff.mpr (List.mem_cons_of_mem _ member), ?_⟩
  rintro rfl
  exact (List.nodup_cons.mp (moved.nodup_iff.mp nodup)).1 member

/-- `last` follows a new node behind the last one. -/
theorem Holds.last_insert (holds : Holds nodes list (left ++ prev :: right)) :
    (if list.last = prev then x else list.last) = (left ++ prev :: x :: right).getLastD 0 := by
  have nodup := holds.nodup
  rw [holds.last]
  rcases List.eq_nil_or_concat' right with rfl | ⟨front, y, rfl⟩
  · have after : left ++ [prev, x] = (left ++ [prev]) ++ [x] := by simp
    rw [List.getLastD_concat, if_pos rfl, after, List.getLastD_concat]
  · have different : y ≠ prev := by
      rintro rfl
      simp [List.nodup_append] at nodup
    have before : left ++ prev :: (front ++ [y]) = (left ++ prev :: front) ++ [y] := by simp
    have after : left ++ prev :: x :: (front ++ [y]) = (left ++ prev :: x :: front) ++ [y] := by
      simp
    rw [before, after, List.getLastD_concat, List.getLastD_concat, if_neg different]

theorem insert_holds (holds : Holds nodes list (left ++ prev :: right))
    (new : list.link.Linkable x) (fresh : x ∉ left ++ prev :: right) :
    Holds (insert nodes list prev x).1 (insert nodes list prev x).2
      (left ++ prev :: x :: right) := by
  have before : left ++ prev :: right = left ++ [prev] ++ right := by simp
  have after : left ++ prev :: x :: right = left ++ [prev] ++ x :: right := by simp
  have middle : (left ++ prev :: x :: right).Perm (x :: (left ++ prev :: right)) := by
    rw [before, after]
    exact List.perm_middle
  have next : list.link.Storable (right.headD 0) :=
    storable_head fun y member => holds.linkable y (by simp [member])
  have written : list.link.decoded (insert nodes list prev x).1 =
      ((list.link.decoded nodes).setNext x (right.headD 0)).setNext prev x := by
    unfold insert
    dsimp only
    rw [holds.getNext_eq, LinkOp.decoded_setNext new.storable, LinkOp.decoded_setNext next]
  have different : x ≠ prev := by
    rintro rfl
    exact fresh (by simp)
  have chained : Chained (list.link.decoded (insert nodes list prev x).1).next
      (left ++ prev :: x :: right) 0 := by
    have old := holds.held.chained
    have nodup := holds.nodup
    rw [before] at old nodup fresh
    rw [written, after]
    unfold Links.setNext
    dsimp only
    refine old.insert ?_ ?_ ?_
    · rw [Function.update_of_ne different, Function.update_self]
    · intro y isLast
      have same : y = prev := by simpa using isLast.symm
      rw [same, Function.update_self]
    · intro y member
      obtain ⟨inside, notPrev⟩ := others_ne nodup member
      have notNew : y ≠ x := fun same => fresh (same ▸ inside)
      rw [Function.update_of_ne notPrev, Function.update_of_ne notNew]
  have size : (insert nodes list prev x).2.size = (left ++ prev :: x :: right).length := by
    rw [middle.length_eq, List.length_cons, ← holds.size]
    exact holds.grown_eq new fresh
  have first : list.first = (left ++ prev :: x :: right).headD 0 := by
    rw [holds.first]
    cases left with
    | nil => rfl
    | cons y rest => rfl
  exact ⟨⟨chained, first, holds.last_insert, size⟩,
    fun y member => holds.cons_linkable new y (middle.mem_iff.mp member),
    middle.nodup_iff.mpr (List.nodup_cons.mpr ⟨fresh, holds.nodup⟩)⟩

theorem insert_updated (inside : prev ∈ seq) :
    Updated nodes list (x :: seq) (insert nodes list prev x).1 (insert nodes list prev x).2 := by
  refine ⟨rfl, ?_⟩
  intro z outside
  obtain ⟨notNew, notOld⟩ := List.ne_and_not_mem_of_not_mem_cons outside
  exact (untouched_setNext notNew).trans (untouched_setNext fun same => notOld (same ▸ inside))

/-- `last` goes back when the last node is taken out. -/
theorem Holds.last_extract (holds : Holds nodes list (left ++ prev :: x :: right)) :
    (if list.last = x then prev else list.last) = (left ++ prev :: right).getLastD 0 := by
  have nodup := holds.nodup
  rw [holds.last]
  rcases List.eq_nil_or_concat' right with rfl | ⟨front, y, rfl⟩
  · have shape : left ++ [prev, x] = (left ++ [prev]) ++ [x] := by simp
    rw [shape, List.getLastD_concat, if_pos rfl, List.getLastD_concat]
  · have different : y ≠ x := by
      rintro rfl
      simp [List.nodup_append] at nodup
    have before : left ++ prev :: x :: (front ++ [y]) = (left ++ prev :: x :: front) ++ [y] := by
      simp
    have after : left ++ prev :: (front ++ [y]) = (left ++ prev :: front) ++ [y] := by simp
    rw [before, after, List.getLastD_concat, List.getLastD_concat, if_neg different]

theorem extract_holds (holds : Holds nodes list (left ++ prev :: x :: right)) :
    Holds (extract nodes list prev x).1 (extract nodes list prev x).2 (left ++ prev :: right) := by
  have before : left ++ prev :: x :: right = left ++ [prev] ++ x :: right := by simp
  have after : left ++ prev :: right = left ++ [prev] ++ right := by simp
  have sub : (left ++ prev :: right).Sublist (left ++ prev :: x :: right) := by
    rw [before, after]
    exact (List.Sublist.refl _).append (List.sublist_cons_self x right)
  have next : list.link.Storable (right.headD 0) :=
    storable_head fun y member => holds.linkable y (by simp [member])
  have nextX : list.link.getNext nodes x = right.headD 0 := by
    have there := holds
    rw [before] at there
    exact there.getNext_eq
  have written : list.link.decoded (extract nodes list prev x).1 =
      (list.link.decoded nodes).setNext prev (right.headD 0) := by
    unfold extract
    dsimp only
    rw [nextX, LinkOp.decoded_setNext next]
  have nodup := holds.nodup.sublist sub
  have chained : Chained (list.link.decoded (extract nodes list prev x).1).next
      (left ++ prev :: right) 0 := by
    have old := holds.held.chained
    rw [before] at old
    rw [after] at nodup
    rw [written, after]
    unfold Links.setNext
    dsimp only
    refine old.erase ?_ ?_
    · intro y isLast
      have same : y = prev := by simpa using isLast.symm
      rw [same, Function.update_self]
    · intro y member
      rw [Function.update_of_ne (others_ne nodup member).2]
  have size : (extract nodes list prev x).2.size = (left ++ prev :: right).length := by
    have length := holds.size
    have shrunk := holds.shrunk_eq (by simp)
    have less : (left ++ prev :: x :: right).length = (left ++ prev :: right).length + 1 := by
      simp
      omega
    change list.shrunk = _
    omega
  have first : list.first = (left ++ prev :: right).headD 0 := by
    rw [holds.first]
    cases left with
    | nil => rfl
    | cons y rest => rfl
  exact ⟨⟨chained, first, holds.last_extract, size⟩,
    fun y member => holds.linkable y (sub.subset member), nodup⟩

theorem extract_updated (inside : prev ∈ seq) :
    Updated nodes list seq (extract nodes list prev x).1 (extract nodes list prev x).2 := by
  refine ⟨rfl, ?_⟩
  intro z outside
  exact untouched_setNext fun same => outside (same ▸ inside)

theorem clear_holds (nodes : Links) (list : IntrusiveList) : Holds nodes list.clear [] :=
  ⟨⟨chained_nil, rfl, rfl, rfl⟩, fun _ member => absurd member List.not_mem_nil,
    List.nodup_nil⟩

/-- Two lists with nodes link the last node of one to the first of the other. -/
theorem appendBack_filled (holds : Holds nodes list seq) (source : Holds nodes other behind)
    (link : other.link = list.link) (apart : seq.Disjoint behind) (filled : seq ≠ [])
    (more : behind ≠ []) :
    Holds (list.link.setNext nodes list.last other.first)
      { list with
        last := other.last
        size := wadd list.link.word.bits list.size other.size } (seq ++ behind) := by
  obtain ⟨front, p, rfl⟩ := (List.eq_nil_or_concat' seq).resolve_left filled
  have linkable : ∀ y ∈ front ++ [p] ++ behind, list.link.Linkable y := by
    intro y member
    rcases List.mem_append.mp member with old | appended
    · exact holds.linkable y old
    · exact link ▸ source.linkable y appended
  have nodup : (front ++ [p] ++ behind).Nodup := holds.nodup.append source.nodup apart
  have first : list.link.Storable other.first := by
    rw [source.first]
    exact storable_head fun y member => linkable y (List.mem_append_right _ member)
  have lastNode : list.last = p := by
    rw [holds.last, List.getLastD_concat]
  have written : list.link.decoded (list.link.setNext nodes list.last other.first) =
      (list.link.decoded nodes).setNext p (behind.headD 0) := by
    rw [LinkOp.decoded_setNext first, lastNode, source.first]
  have chained : Chained (list.link.decoded (list.link.setNext nodes list.last other.first)).next
      (front ++ [p] ++ behind) 0 := by
    have old := holds.held.chained
    have appended := source.held.chained
    rw [link] at appended
    rw [written]
    unfold Links.setNext
    dsimp only
    refine old.append appended ?_ ?_
    · intro y isLast
      have same : y = p := by simpa using isLast.symm
      rw [same, Function.update_self]
    · intro y member
      rw [Function.update_of_ne (others_ne nodup member).2]
  have size : wadd list.link.word.bits list.size other.size = (front ++ [p] ++ behind).length := by
    have bound := length_lt nodup linkable
    rw [List.length_append] at bound ⊢
    rw [holds.size, source.size]
    exact wadd_eq bound
  have last : other.last = (front ++ [p] ++ behind).getLastD 0 := by
    obtain ⟨rest, q, rfl⟩ := (List.eq_nil_or_concat' behind).resolve_left more
    rw [source.last, List.getLastD_concat, ← List.append_assoc, List.getLastD_concat]
  have head : list.first = (front ++ [p] ++ behind).headD 0 := by
    rw [holds.first]
    cases front with
    | nil => rfl
    | cons y rest => rfl
  exact ⟨⟨chained, head, last, size⟩, linkable, nodup⟩

/-- All nodes of the other list come behind those of this one. -/
theorem appendBack_holds (holds : Holds nodes list seq) (source : Holds nodes other behind)
    (link : other.link = list.link) (apart : seq.Disjoint behind) :
    ∃ nodes' list' other', appendBack nodes list other = (nodes', list', other') ∧
      Holds nodes' list' (seq ++ behind) ∧ Holds nodes' other' [] ∧
      Updated nodes list seq nodes' list' ∧ other'.link = other.link := by
  have unchanged : Updated nodes list seq nodes list := ⟨rfl, fun z _ => Untouched.refl nodes z⟩
  by_cases more : behind = []
  · subst more
    have result : appendBack nodes list other = (nodes, list, other) :=
      if_pos (source.empty_iff.mpr rfl)
    rw [List.append_nil]
    exact ⟨_, _, _, result, holds, source, unchanged, rfl⟩
  · have notEmptySource : other.empty = false := by
      rw [← Bool.not_eq_true, source.empty_iff]
      exact more
    by_cases filled : seq = []
    · subst filled
      have result : appendBack nodes list other = (nodes, other, other.clear) := by
        unfold appendBack
        rw [notEmptySource, holds.empty_iff.mpr rfl]
        rfl
      exact ⟨_, _, _, result, source, clear_holds nodes other,
        ⟨link, fun z _ => Untouched.refl nodes z⟩, rfl⟩
    · have notEmpty : list.empty = false := by
        rw [← Bool.not_eq_true, holds.empty_iff]
        exact filled
      have result : appendBack nodes list other =
          (list.link.setNext nodes list.last other.first,
            { list with
              last := other.last
              size := wadd list.link.word.bits list.size other.size }, other.clear) := by
        unfold appendBack
        rw [notEmptySource, notEmpty]
        rfl
      refine ⟨_, _, _, result, appendBack_filled holds source link apart filled more,
        clear_holds _ other, ⟨rfl, ?_⟩, rfl⟩
      intro z outside
      exact untouched_setNext (holds.last_ne outside notEmpty)

end SinglyLinkedList

end Scudo.Intrusive
