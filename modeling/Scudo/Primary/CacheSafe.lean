import Scudo.Primary.PopulateSafe

/-!
The operations of `SizeClassAllocatorLocalCache`: a block moves between a slot of the cache, the hands
of the thread and the allocator, and the slots are never more than `MaxCount`.
-/

namespace Scudo.Primary.Allocator64
open Scudo.Lib.Guarded

variable {n : Nat} [NeZero n]

section Slots

variable {c : BlockConfig n} {I : Fin n} {own : Locals n} {th th' th'' : Worker n}
  {hand hand' rest : Places n}

/-- Blocks move between the slots of a class and the hands. -/
theorem places_slots {slots : List Nat} (moves : hand + Pi.single I (slots : Multiset Nat) =
      own.hand + Pi.single I (own.chunks I : Multiset Nat)) :
    Locals.places { own with chunks := Function.update own.chunks I slots, hand := hand } =
      own.places := by
  have all : (fun J => (Function.update own.chunks I slots J : Multiset Nat)) + hand =
      (fun J => (own.chunks J : Multiset Nat)) + own.hand := by
    funext J
    have at_ := congrFun moves J
    by_cases same : J = I
    · subst same
      simp only [Pi.add_apply, Pi.single_eq_same] at at_
      simp only [Pi.add_apply, Function.update_self]
      rw [add_comm, at_, add_comm]
    · simp only [Pi.add_apply, Pi.single_eq_of_ne same, add_zero] at at_
      simp only [Pi.add_apply, Function.update_of_ne same, at_]
  unfold Locals.places
  dsimp only
  rw [all]

/-- What an operation of the cache for a class leaves: other classes keep their slots, but for the
batch class. -/
structure Served (I : Fin n) (hand : Places n) (th th' : Worker n) : Prop where
  held : th'.held = th.held
  chunks : ∀ J, J ≠ I → J ≠ 0 → th'.own.chunks J = th.own.chunks J
  groups : th'.own.groupsToRelease = th.own.groupsToRelease
  class_ : th'.own.releaseClass = th.own.releaseClass
  flushed : th'.own.flushed = th.own.flushed
  hand : th'.own.hand = hand

theorem Served.trans (first : Served I hand th th') (second : Served I hand' th' th'') :
    Served I hand' th th'' :=
  ⟨second.held.trans first.held,
    fun J other some_ => (second.chunks J other some_).trans (first.chunks J other some_),
    second.groups.trans first.groups, second.class_.trans first.class_,
    second.flushed.trans first.flushed, second.hand⟩

theorem Returned.served (returned : Returned I hand th th') : Served I hand th th' :=
  ⟨returned.held, fun J _ some_ => returned.kept.chunks J (Or.inl some_), returned.kept.groups,
    returned.kept.class_, returned.kept.flushed, returned.hand⟩

/-- An operation for the batch class, as another class sees it. -/
theorem Served.returned (served : Served 0 hand th th') (other : I ≠ 0) : Returned I hand th th' := by
  refine ⟨served.held, ⟨?_, served.groups, served.class_, served.flushed⟩, served.hand⟩
  intro J case_
  rcases case_ with some_ | zero
  · exact served.chunks J some_ some_
  · exact absurd zero other

theorem Returned.slots (returned : Returned I hand th th') :
    th'.own.chunks I = th.own.chunks I := by
  apply returned.kept.chunks
  by_cases zero : I = 0
  · exact Or.inr zero
  · exact Or.inl zero

/-- An action on the slots of a class. -/
theorem slots_safe {α : Type} {f : Locals n → Locals n × α} {post : α → Worker n → Prop}
    (I : Fin n) (slots : List Nat) (hand : Places n) (a : α)
    (step : f th.own =
      ({ th.own with chunks := Function.update th.own.chunks I slots, hand := hand }, a))
    (moves : hand + Pi.single I (slots : Multiset Nat) =
      th.own.hand + Pi.single I (th.own.chunks I : Multiset Nat))
    (fits : (discipline c).Good th → slots.length ≤ c.maxCount I)
    (holds : ∀ th', Served I hand th th' → th'.own.chunks I = slots → post a th') :
    (discipline c).Safe (Prog.locally fun _ own => f own : Run n α) post th := by
  apply Discipline.Safe.locally
  intro good _
  rw [step]
  refine ⟨places_slots moves, ⟨?_, good.own.released, good.own.class_ne⟩, ?_⟩
  · intro J
    dsimp only
    by_cases same : J = I
    · subst same
      rw [Function.update_self]
      exact fits good
    · rw [Function.update_of_ne same]
      exact good.own.chunks_le J
  · exact holds _ ⟨rfl, fun J other _ => Function.update_of_ne other _ _, rfl, rfl, rfl, rfl⟩
      (Function.update_self ..)

theorem count_safe {α : Type} {k : Nat → Run n α} {post : α → Worker n → Prop}
    (next : (discipline c).Safe (k (th.own.chunks I).length) post th) :
    (discipline c).Safe (count I >>= k) post th := by
  have safe : (discipline c).Safe (count I)
      (fun size th' => size = (th.own.chunks I).length ∧ th' = th) th :=
    Discipline.Safe.locally fun good _ => ⟨rfl, good.own, rfl, rfl⟩
  refine Discipline.Safe.bind safe ?_
  rintro _ th' - ⟨rfl, same⟩
  subst th'
  exact next

theorem popMax_half (c : BlockConfig n) (I : Fin n) : popMax c I (c.maxCount I / 2) ≤ c.maxCount I / 2 := by
  unfold popMax batchClassMax
  split_ifs with zero
  · subst zero
    rw [c.maxCount_eq]
    omega
  · exact le_rfl

theorem half_pos (c : BlockConfig n) (I : Fin n) : 0 < c.maxCount I / 2 := by
  have positive := c.getMaxCached_pos (c.getSizeByClassId I)
  rw [c.maxCount_eq]
  omega

end Slots

section Cache

variable {c : BlockConfig n} {ops : BatchClass n} {I : Fin n} {th : Worker n} {rest : Places n}

theorem refill_safe (safe : I ≠ 0 → ops.Safe c) (empty : th.own.chunks I = []) :
    (discipline c).Safe (refill c ops I (c.maxCount I / 2))
      (fun _ th' => Served I th.own.hand th th') th := by
  unfold refill
  refine Discipline.Safe.bind (popBlocks_safe safe) ?_
  rintro blocks th₁ - ⟨returned, length⟩
  have slots : th₁.own.chunks I = [] := returned.slots.trans empty
  refine slots_safe I (th₁.own.chunks I ++ blocks) th.own.hand (decide (blocks ≠ [])) ?_ ?_ ?_ ?_
  · rw [take_eq returned.hand]
    rfl
  · rw [slots, returned.hand, List.nil_append, Multiset.coe_nil, Pi.single_zero, add_zero]
  · intro _
    have half := popMax_half c I
    rw [slots, List.nil_append]
    omega
  · exact fun th₂ second _ => returned.served.trans second

/-- A slot is emptied, if there is one. -/
theorem popChunk_safe : (discipline c).Safe (popChunk I) (fun block th' =>
    Served I (th.own.hand + Pi.single I (ofNode block)) th th') th := by
  cases last : (th.own.chunks I).getLast? with
  | none =>
    have empty := List.getLast?_eq_none_iff.mp last
    refine slots_safe I (th.own.chunks I) th.own.hand none ?_ rfl (fun good => good.own.chunks_le I) ?_
    · simp only [last, Function.update_eq_self]
    · intro th' served _
      rw [ofNode_none, Pi.single_zero, add_zero]
      exact served
  | some block =>
    have parts : (th.own.chunks I : Multiset Nat) = (th.own.chunks I).dropLast + {block} :=
      getLast?_parts last
    refine slots_safe I (th.own.chunks I).dropLast (th.own.hand + Pi.single I {block}) (some block)
      ?_ ?_ ?_ fun th' served _ => served
    · simp only [last]
      rfl
    · rw [parts, single_add]
      abel
    · intro good
      have le := good.own.chunks_le I
      rw [List.length_dropLast]
      omega

theorem allocate_safe (safe : I ≠ 0 → ops.Safe c) :
    (discipline c).Safe (allocate c ops I) (fun block th' =>
      Served I (th.own.hand + Pi.single I (ofNode block)) th th') th := by
  unfold allocate
  refine count_safe ?_
  split_ifs with some_
  · exact popChunk_safe
  · have empty : th.own.chunks I = [] := List.length_eq_zero_iff.mp (not_not.mp some_)
    refine Discipline.Safe.bind (refill_safe safe empty) ?_
    rintro refilled th₁ - first
    split_ifs
    · refine Discipline.Safe.mono popChunk_safe ?_
      rintro block th₂ - second
      rw [first.hand] at second
      exact first.trans second
    · apply Discipline.Safe.pure
      intro _
      rw [ofNode_none, Pi.single_zero, add_zero]
      exact first

theorem takeChunks_safe (some_ : th.own.chunks I ≠ []) :
    (discipline c).Safe (takeChunks c I) (fun array th' => array ≠ [] ∧
      Served I (th.own.hand + Pi.single I (array : Multiset Nat)) th th' ∧ th'.own.chunks I =
        (th.own.chunks I).drop (min (c.maxCount I / 2) (th.own.chunks I).length)) th := by
  have half := half_pos c I
  have length := List.length_pos_iff.mpr some_
  have count_ : 0 < min (c.maxCount I / 2) (th.own.chunks I).length := lt_min half length
  generalize size : min (c.maxCount I / 2) (th.own.chunks I).length = count at count_ ⊢
  refine slots_safe I ((th.own.chunks I).drop count) (th.own.hand + Pi.single I
    ((th.own.chunks I).take count : Multiset Nat)) ((th.own.chunks I).take count) ?_ ?_ ?_ ?_
  · simp only [size]
    rfl
  · rw [add_assoc, ← single_add, Multiset.coe_add, List.take_append_drop]
  · intro good
    have le := good.own.chunks_le I
    rw [List.length_drop]
    omega
  · intro th' served slots
    refine ⟨?_, served, slots⟩
    intro empty
    have none_ := congrArg List.length empty
    rw [List.length_take, List.length_nil] at none_
    omega

/-- `drain` of a class that has blocks. -/
theorem drainClass_safe (safe : I ≠ 0 → ops.Safe c) (some_ : th.own.chunks I ≠ []) :
    (discipline c).Safe (drainClass c ops I) (fun _ th' => Served I th.own.hand th th' ∧
      th'.own.chunks I = (th.own.chunks I).drop (min (c.maxCount I / 2) (th.own.chunks I).length)) th := by
  unfold drainClass
  refine Discipline.Safe.bind (takeChunks_safe some_) ?_
  rintro array th₁ - ⟨array_, first, slots⟩
  refine Discipline.Safe.mono (pushBlocks_safe safe array_ first.hand) ?_
  rintro _ th₂ - second
  exact ⟨first.trans second.served, second.slots.trans slots⟩

theorem storeChunk_safe {block : Nat} (room : (th.own.chunks I).length < c.maxCount I)
    (has : th.own.hand = rest + Pi.single I {block}) :
    (discipline c).Safe (storeChunk I block) (fun _ th' => Served I rest th th') th := by
  refine slots_safe I (th.own.chunks I ++ [block]) rest () ?_ ?_ ?_ fun th' served _ => served
  · rw [take_eq has]
    rfl
  · rw [has, ← Multiset.coe_add, single_add, Multiset.coe_singleton]
    abel
  · intro _
    rw [List.length_append, List.length_singleton]
    exact room

theorem deallocate_safe (safe : I ≠ 0 → ops.Safe c) {block : Nat}
    (has : th.own.hand = rest + Pi.single I {block}) :
    (discipline c).Safe (deallocate c ops I block) (fun _ th' => Served I rest th th') th := by
  apply Discipline.Safe.of_good
  intro good
  have le := good.own.chunks_le I
  have half := half_pos c I
  unfold deallocate
  refine count_safe ?_
  split_ifs with full
  · have some_ : th.own.chunks I ≠ [] := by
      apply List.length_pos_iff.mp
      omega
    refine Discipline.Safe.bind (drainClass_safe safe some_) ?_
    rintro _ th₁ - ⟨first, slots⟩
    rw [← first.hand] at has
    have room : (th₁.own.chunks I).length < c.maxCount I := by
      rw [slots, List.length_drop]
      omega
    refine Discipline.Safe.bind (storeChunk_safe room has) ?_
    rintro _ th₂ - second
    exact Discipline.Safe.pure fun _ => first.trans second
  · refine Discipline.Safe.bind (storeChunk_safe (lt_of_le_of_ne le full) has) ?_
    rintro _ th₁ - first
    exact Discipline.Safe.pure fun _ => first

theorem drainAll_safe (safe : I ≠ 0 → ops.Safe c) (fuel : Nat)
    (enough : (th.own.chunks I).length < fuel) :
    (discipline c).Safe (drainAll c ops I fuel) (fun _ th' => Served I th.own.hand th th') th := by
  induction fuel generalizing th with
  | zero => exact absurd enough (Nat.not_lt_zero _)
  | succ fuel ih =>
    have half := half_pos c I
    unfold drainAll
    refine count_safe ?_
    split_ifs with empty
    · exact Discipline.Safe.pure fun _ => ⟨rfl, fun _ _ _ => rfl, rfl, rfl, rfl, rfl⟩
    · have some_ : th.own.chunks I ≠ [] := fun none_ => empty (List.length_eq_zero_iff.mpr none_)
      refine Discipline.Safe.bind (drainClass_safe safe some_) ?_
      rintro _ th₁ - ⟨first, slots⟩
      have fewer : (th₁.own.chunks I).length < fuel := by
        rw [slots, List.length_drop]
        omega
      refine Discipline.Safe.mono (ih fewer) ?_
      rintro _ th₂ - second
      rw [first.hand] at second
      exact first.trans second

theorem drainLoop_safe (safe : I ≠ 0 → ops.Safe c) :
    (discipline c).Safe (drainLoop c ops I) (fun _ th' => Served I th.own.hand th th') th :=
  count_safe (drainAll_safe safe _ (Nat.lt_succ_self _))

end Cache

section BatchClass

variable {c : BlockConfig n} {th : Worker n}

theorem noBatchClass_safe : (0 : Fin n) ≠ 0 → BatchClass.Safe c noBatchClass :=
  fun other => absurd rfl other

/-- A node for the list of a class is a block of the batch class, which needs no nodes itself. -/
theorem batchClass_safe : (batchClass c).Safe c where
  getBatchClassBlock := by
    intro I other th
    refine Discipline.Safe.bind (allocate_safe noBatchClass_safe) ?_
    rintro block th₁ - served
    cases block with
    | none => exact trivial
    | some block => exact Discipline.Safe.pure fun _ => served.returned other
  deallocate := by
    intro I other th rest block has
    refine Discipline.Safe.bind (deallocate_safe noBatchClass_safe has) ?_
    rintro _ th₁ - served
    exact Discipline.Safe.pure fun _ => served.returned other

theorem drainClasses_safe (classes : List (Fin n)) :
    (discipline c).Safe (drainClasses c (batchClass c) classes) (fun _ th' => th'.held = th.held ∧
      th'.own.groupsToRelease = th.own.groupsToRelease ∧ th'.own.hand = th.own.hand) th := by
  induction classes generalizing th with
  | nil => exact Discipline.Safe.pure fun _ => ⟨rfl, rfl, rfl⟩
  | cons I rest ih =>
    unfold drainClasses
    refine Discipline.Safe.bind (drainLoop_safe fun _ => batchClass_safe) ?_
    rintro _ th₁ - first
    refine Discipline.Safe.mono ih ?_
    rintro _ th₂ - ⟨held, groups, hand⟩
    exact ⟨held.trans first.held, groups.trans first.groups, hand.trans first.hand⟩

theorem drain_safe :
    (discipline c).Safe (drain c) (fun _ th' => th'.held = th.held ∧
      th'.own.groupsToRelease = th.own.groupsToRelease ∧ th'.own.hand = th.own.hand) th := by
  unfold drain
  refine Discipline.Safe.bind (drainClasses_safe _) ?_
  rintro _ th₁ - ⟨held, groups, hand⟩
  refine Discipline.Safe.mono (drainLoop_safe fun _ => batchClass_safe) ?_
  rintro _ th₂ - last
  exact ⟨last.held.trans held, last.groups.trans groups, last.hand.trans hand⟩

end BatchClass

end Scudo.Primary.Allocator64
