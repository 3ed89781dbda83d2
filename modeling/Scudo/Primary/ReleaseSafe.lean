import Scudo.Primary.CacheSafe

/-!
Page release: the groups that are out of a free list keep their blocks until they are merged back, and
the nodes that are unused then go back to the batch class.
-/

namespace Scudo.Primary.Allocator64
open Scudo.Lib.Guarded

variable {n : Nat} [NeZero n]

section Merge

variable {c : BlockConfig n} {I : Fin n} {th th' th'' : Worker n} {populating : Bool}
  {hand : Places n}

/-- What a flush leaves. -/
structure Flushes (hand : Places n) (arrays : List (List Nat)) (th th' : Worker n) : Prop where
  held : th'.held = th.held
  groups : th'.own.groupsToRelease = th.own.groupsToRelease
  class_ : th'.own.releaseClass = th.own.releaseClass
  hand : th'.own.hand = hand
  flushed : th'.own.flushed = th.own.flushed ++ arrays

theorem noteFlush_safe {blocks : List Nat} :
    (discipline c).Safe (noteFlush blocks) (fun _ th' => Flushes th.own.hand [blocks] th th') th :=
  Discipline.Safe.locally fun good _ =>
    ⟨rfl, ⟨good.own.chunks_le, good.own.released, good.own.class_ne⟩, rfl, rfl, rfl, rfl, rfl⟩

theorem flush_safe {blocks : List Nat} (some_ : blocks ≠ [])
    (has : th.own.hand = hand + Pi.single 0 (blocks : Multiset Nat)) :
    (discipline c).Safe (flush c blocks) (fun _ th' => Flushes hand [blocks] th th') th := by
  refine Discipline.Safe.bind noteFlush_safe ?_
  rintro _ th₁ - first
  rw [← first.hand] at has
  refine acquire_list fun waits groups populating settled => ?_
  refine Discipline.Safe.bind (pushBatchClass_safe some_ (Thread.put_held_self ..) has) ?_
  rintro _ th₂ - ⟨groups₂, settled₂, after⟩
  refine Discipline.Safe.release after.there settled₂ ?_
  have returned := after.released waits
  exact ⟨returned.held.trans first.held, returned.kept.groups.trans first.groups,
    returned.kept.class_.trans first.class_, returned.hand, returned.kept.flushed.trans first.flushed⟩

/-- What the rounds of `mergeGroupsToReleaseBack` leave. -/
structure Merged (c : BlockConfig n) (I : Fin n) (populating : Bool) (hand : Places n)
    (th th' : Worker n) (groups : List GroupNode) (arrays : List (List Nat)) : Prop where
  settled : ListSettled c groups
  held : th'.held = Function.update th.held (.flLock I) (some ⟨groups, populating⟩)
  released : th'.own.groupsToRelease = []
  hand : th'.own.hand = hand
  flushed : th'.own.flushed = th.own.flushed ++ arrays
  sizes : ∀ array ∈ arrays, array ≠ [] ∧ array.length ≤ maxUnusedSize

theorem worth_exchange {J : Fin n} {chunks hand hand' : Places n} {groups groups' : List GroupNode}
    {list list' : List GroupNode} (unused : Multiset Nat) (other : J ≠ 0)
    (recorded_ : recorded list' + recorded groups' = recorded list + recorded groups)
    (nodes_ : nodes list' + nodes groups' + unused = nodes list + nodes groups)
    (hand_ : hand' = hand + Pi.single 0 unused) :
    chunks + hand' + Pi.single J (recorded groups') + Pi.single 0 (nodes groups') +
        listPlaces J list' =
      chunks + hand + Pi.single J (recorded groups) + Pi.single 0 (nodes groups) +
        listPlaces J list := by
  rw [listPlaces_other other, listPlaces_other other, hand_]
  calc _ = chunks + hand + (Pi.single J (recorded list') + Pi.single J (recorded groups')) +
            (Pi.single 0 (nodes list') + Pi.single 0 (nodes groups') + Pi.single 0 unused) := by abel
    _ = chunks + hand + (Pi.single J (recorded list) + Pi.single J (recorded groups)) +
          (Pi.single 0 (nodes list) + Pi.single 0 (nodes groups)) := by
      rw [← single_add, ← single_add, ← single_add, ← single_add, ← single_add, recorded_, nodes_]
    _ = _ := by abel

/-- What a round leaves. -/
structure Rounded (I : Fin n) (populating : Bool) (round : MergeRound) (th th' : Worker n) : Prop where
  held : th'.held = Function.update th.held (.flLock I) (some ⟨round.blockList, populating⟩)
  released : th'.own.groupsToRelease = round.groupsToRelease
  class_ : th'.own.releaseClass = I
  hand : th'.own.hand = th.own.hand + Pi.single 0 (round.unused : Multiset Nat)
  flushed : th'.own.flushed = th.own.flushed

theorem mergeRound_safe {passed left : List GroupNode} (other : I ≠ 0)
    (list : th.held (.flLock I) = some ⟨passed ++ left, populating⟩)
    (class_ : th.own.releaseClass = I) (merging : Merging c passed left th.own.groupsToRelease) :
    (discipline c).Safe (onList I fun own groups =>
      let round := mergeRound groups passed.length own.groupsToRelease
      (({ own with groupsToRelease := round.groupsToRelease }.give 0 round.unused, round.blockList),
        round)) (fun round th' =>
      round = mergeRound (passed ++ left) passed.length th.own.groupsToRelease ∧
        Rounded I populating round th th') th := by
  apply Discipline.Safe.under list
  intro good _
  obtain ⟨recorded_, nodes_⟩ := @mergeRound_moves passed left th.own.groupsToRelease
  have settled := mergeRound_settled merging
  dsimp only
  generalize mergeRound (passed ++ left) passed.length th.own.groupsToRelease = round at *
  have released : ListSettled c round.groupsToRelease := by
    rcases settled with ⟨-, none_, -⟩ | ⟨_, _, -, -, merging', -⟩
    · rw [none_]
      exact ListSettled.nil
    · exact merging'.left
  refine ⟨?_, ⟨good.own.chunks_le, released, ?_⟩, fun zero => absurd zero other, rfl, rfl, rfl, class_,
    rfl, rfl⟩
  · change _ + Pi.single th.own.releaseClass (recorded round.groupsToRelease) + _ +
      listPlaces I round.blockList =
        _ + Pi.single th.own.releaseClass (recorded th.own.groupsToRelease) + _ +
          listPlaces I (passed ++ left)
    rw [class_]
    exact worth_exchange _ other recorded_ nodes_ rfl
  · intro _
    change th.own.releaseClass ≠ 0
    rw [class_]
    exact other

/-- The list has all blocks that it and the released groups had, and the nodes that are missing are
those that were flushed and those that are left. -/
structure MovesAll (groups released groups' : List GroupNode) (before : List Nat)
    (arrays : List (List Nat)) (blocks : List Nat) : Prop where
  blocks_ : recorded groups' = recorded groups + recorded released
  nodes_ : nodes groups' + (arrays.flatten + blocks : Multiset Nat) =
    nodes groups + nodes released + before

theorem MovesAll.round {passed left released groups' : List GroupNode} {before blocks : List Nat}
    {arrays : List (List Nat)} {round : MergeRound}
    (same : round = mergeRound (passed ++ left) passed.length released)
    (rest : MovesAll round.blockList round.groupsToRelease groups' (before ++ round.unused) arrays
      blocks) : MovesAll (passed ++ left) released groups' before arrays blocks := by
  obtain ⟨recorded_, nodes_⟩ := @mergeRound_moves passed left released
  rw [← same] at recorded_ nodes_
  refine ⟨rest.blocks_.trans recorded_, rest.nodes_.trans ?_⟩
  rw [← Multiset.coe_add, ← nodes_]
  abel

theorem MovesAll.flush {groups released groups' : List GroupNode} {before unused blocks : List Nat}
    {arrays : List (List Nat)} (rest : MovesAll groups released groups' unused arrays blocks) :
    MovesAll groups released groups' (before ++ unused) (before :: arrays) blocks := by
  refine ⟨rest.blocks_, ?_⟩
  have nodes_ := rest.nodes_
  rw [List.flatten_cons, ← Multiset.coe_add, ← Multiset.coe_add]
  calc _ = nodes groups' + ((arrays.flatten : Multiset Nat) + blocks) + before := by abel
    _ = _ := by
      rw [nodes_]
      abel

theorem mergeLoop_safe (other : I ≠ 0) (fuel : Nat) {passed left : List GroupNode}
    {blocks : List Nat} (list : th.held (.flLock I) = some ⟨passed ++ left, populating⟩)
    (class_ : th.own.releaseClass = I) (merging : Merging c passed left th.own.groupsToRelease)
    (has : th.own.hand = hand + Pi.single 0 (blocks : Multiset Nat))
    (few : blocks.length ≤ maxUnusedSize)
    (enough : left.length + th.own.groupsToRelease.length < fuel) :
    (discipline c).Safe (mergeLoop c I passed.length blocks fuel) (fun blocks' th' =>
      blocks'.length ≤ maxUnusedSize ∧ ∃ groups arrays,
        Merged c I populating (hand + Pi.single 0 (blocks' : Multiset Nat)) th th' groups arrays ∧
        MovesAll (passed ++ left) th.own.groupsToRelease groups blocks arrays blocks') th := by
  induction fuel generalizing th passed left blocks with
  | zero => exact absurd enough (Nat.not_lt_zero _)
  | succ fuel ih =>
    unfold mergeLoop
    rw [if_neg (Nat.not_lt.mpr few)]
    have settled := mergeRound_settled merging
    refine Discipline.Safe.bind (mergeRound_safe other list class_ merging) ?_
    rintro round th₁ - ⟨same, held, released, class₁, hand₁, flushed⟩
    rw [← same] at settled
    rw [has, add_assoc, ← single_add, Multiset.coe_add] at hand₁
    rcases settled with ⟨last, none_, unused, settled⟩ | ⟨passed', left', next, parts, merging', fewer, two⟩
    · rw [last]
      apply Discipline.Safe.pure
      intro _
      rw [unused, List.append_nil] at hand₁
      refine ⟨few, round.blockList, [], ⟨settled, held, released.trans none_, hand₁, ?_,
        fun _ member => absurd member List.not_mem_nil⟩,
        MovesAll.round same ⟨?_, ?_⟩⟩
      · rw [List.append_nil]
        exact flushed
      · rw [none_, recorded_nil, add_zero]
      · rw [none_, unused, nodes_nil, List.flatten_nil, List.append_nil, Multiset.coe_nil, zero_add,
          add_zero]
    · rw [next]
      rw [← released] at merging' fewer
      have list₁ : th₁.held (.flLock I) = some ⟨passed' ++ left', populating⟩ := by
        rw [held, Function.update_self, parts]
      dsimp only
      split_ifs with full
      · have some_ : blocks ≠ [] := by
          rintro rfl
          unfold maxUnusedSize at full
          rw [List.length_nil] at full
          omega
        have hand₂ : th₁.own.hand = hand + Pi.single 0 (round.unused : Multiset Nat) +
            Pi.single 0 (blocks : Multiset Nat) := by
          rw [hand₁, add_assoc, ← single_add, Multiset.coe_add,
            Multiset.coe_eq_coe.mpr List.perm_append_comm]
        refine Discipline.Safe.bind (flush_safe some_ hand₂) ?_
        rintro _ th₂ - ⟨held₂, groups₂, class₂, hand₂, flushed₂⟩
        rw [← held₂] at list₁
        rw [← groups₂] at merging' fewer
        refine Discipline.Safe.mono (ih list₁ (class₂.trans class₁) merging' hand₂
          (by unfold maxUnusedSize; omega) (by omega)) ?_
        rintro blocks' th₃ - ⟨few', groups, arrays, ⟨settled₃, held₃, released₃, hand₃, flushed₃, sizes⟩,
          moves⟩
        rw [← parts, groups₂, released] at moves
        refine ⟨few', groups, blocks :: arrays, ⟨settled₃, ?_, released₃, hand₃, ?_, ?_⟩,
          MovesAll.round same moves.flush⟩
        · rw [held₃, held₂, held, Function.update_idem]
        · rw [flushed₃, flushed₂, flushed, List.append_assoc]
          rfl
        · exact List.forall_mem_cons.mpr ⟨⟨some_, few⟩, sizes⟩
      · refine Discipline.Safe.mono (ih list₁ class₁ merging' hand₁
          (by rw [List.length_append]; omega) (by omega)) ?_
        rintro blocks' th₃ - ⟨few', groups, arrays, ⟨settled₃, held₃, released₃, hand₃, flushed₃, sizes⟩,
          moves⟩
        rw [← parts, released] at moves
        refine ⟨few', groups, arrays, ⟨settled₃, ?_, released₃, hand₃, ?_, sizes⟩,
          MovesAll.round same moves⟩
        · rw [held₃, held, Function.update_idem]
        · rw [flushed₃, flushed]

/-- What an operation of page release leaves that gives back every lock. -/
structure Released (th th' : Worker n) : Prop where
  held : th'.held = th.held
  released : th'.own.groupsToRelease = []
  hand : th'.own.hand = th.own.hand

theorem flushLast_safe {blocks : List Nat} (few : blocks.length ≤ maxUnusedSize)
    (has : th.own.hand = hand + Pi.single 0 (blocks : Multiset Nat)) :
    (discipline c).Safe (flushLast c blocks) (fun _ th' => ∃ arrays, Flushes hand arrays th th' ∧
      (∀ array ∈ arrays, array ≠ [] ∧ array.length ≤ maxUnusedSize) ∧ arrays.flatten = blocks) th := by
  unfold flushLast
  split_ifs with none_
  · apply Discipline.Safe.pure
    intro _
    rw [none_, Multiset.coe_nil, Pi.single_zero, add_zero] at has
    exact ⟨[], ⟨rfl, rfl, rfl, has, (List.append_nil _).symm⟩,
      fun _ member => absurd member List.not_mem_nil, none_.symm⟩
  · refine Discipline.Safe.mono (flush_safe none_ has) ?_
    rintro _ th₁ - flushes
    refine ⟨[blocks], flushes, ?_, by simp⟩
    intro array member
    rw [List.mem_singleton.mp member]
    exact ⟨none_, few⟩

/-- `mergeGroupsToReleaseBack` under the lock of the list. -/
theorem mergeLocked_safe {groups : List GroupNode} (other : I ≠ 0)
    (list : th.held (.flLock I) = some ⟨groups, populating⟩) (settled : ListSettled c groups)
    (class_ : th.own.releaseClass = I) :
    (discipline c).Safe (mergeLocked c I) (fun _ th' => ∃ groups' arrays,
      Merged c I populating th.own.hand th th' groups' arrays ∧
      MovesAll groups th.own.groupsToRelease groups' [] arrays []) th := by
  apply Discipline.Safe.of_good
  intro good
  refine onList_look list fun th₁ first => ?_
  have class₁ : th₁.own.releaseClass = I := first.kept.class_.trans class_
  have released₁ : th₁.own.groupsToRelease = th.own.groupsToRelease := first.kept.groups
  have merging : Merging c [] groups th₁.own.groupsToRelease := by
    rw [released₁]
    exact ⟨settled, good.own.released, fun _ member => absurd member List.not_mem_nil⟩
  have has : th₁.own.hand = th.own.hand + Pi.single 0 (([] : List Nat) : Multiset Nat) := by
    rw [first.hand, Multiset.coe_nil, Pi.single_zero, add_zero]
  refine Discipline.Safe.bind (mergeLoop_safe other _ first.there class₁ merging has
    (Nat.zero_le _) ?_) ?_
  · rw [released₁]
    exact Nat.lt_succ_self _
  · rintro blocks th₂ - ⟨few, groups₂, arrays, ⟨settled₂, held₂, none_, hand₂, flushed₂, sizes₂⟩, moves⟩
    rw [List.nil_append, released₁] at moves
    refine Discipline.Safe.mono (flushLast_safe few hand₂) ?_
    rintro _ th₃ - ⟨last, ⟨held₃, released₃, -, hand₃, flushed₃⟩, sizes₃, all⟩
    refine ⟨groups₂, arrays ++ last, ⟨settled₂, ?_, released₃.trans none_, hand₃, ?_, ?_⟩,
      moves.blocks_, ?_⟩
    · rw [held₃, held₂, first.held, Function.update_idem]
    · rw [flushed₃, flushed₂, first.kept.flushed, List.append_assoc]
    · intro array member
      rcases List.mem_append.mp member with member | member
      · exact sizes₂ array member
      · exact sizes₃ array member
    · rw [List.flatten_append, all, ← Multiset.coe_add, Multiset.coe_nil, add_zero]
      exact moves.nodes_

theorem mergeGroupsToReleaseBack_safe (other : I ≠ 0) (class_ : th.own.releaseClass = I) :
    (discipline c).Safe (mergeGroupsToReleaseBack c I) (fun _ th' => Released th th') th := by
  refine acquire_list fun waits groups populating settled => ?_
  refine Discipline.Safe.bind
    (mergeLocked_safe other (Thread.put_held_self ..) (settled.2 other) class_) ?_
  rintro _ th₁ - ⟨groups₁, arrays, merged, -⟩
  have list : th₁.held (.flLock I) = some ⟨groups₁, populating⟩ := by
    rw [merged.held, Function.update_self]
  refine Discipline.Safe.release list ⟨fun zero => absurd zero other, fun _ => merged.settled⟩ ?_
  exact ⟨held_released waits merged.held, merged.released, merged.hand⟩

end Merge

section Extract

variable {c : BlockConfig n} {I : Fin n} {th : Worker n} {populating : Bool}
  {groups : List GroupNode}

/-- A filter and its complement have everything. -/
theorem sum_filter (f : GroupNode → Multiset Nat) (p : GroupNode → Bool) (groups : List GroupNode) :
    ((groups.filter fun group => !p group).map f).sum + ((groups.filter p).map f).sum =
      (groups.map f).sum := by
  induction groups with
  | nil => rfl
  | cons group rest ih =>
    rw [List.map_cons, List.sum_cons, ← ih]
    cases chosen : p group with
    | true =>
      simp only [List.filter_cons, chosen, Bool.not_true, if_true, if_false, Bool.false_eq_true,
        List.map_cons, List.sum_cons]
      abel
    | false =>
      simp only [List.filter_cons, chosen, Bool.not_false, if_true, if_false, Bool.false_eq_true,
        List.map_cons, List.sum_cons]
      abel

theorem recorded_filter (p : GroupNode → Bool) (groups : List GroupNode) :
    recorded (groups.filter fun group => !p group) + recorded (groups.filter p) = recorded groups :=
  sum_filter _ p groups

theorem nodes_filter (p : GroupNode → Bool) (groups : List GroupNode) :
    nodes (groups.filter fun group => !p group) + nodes (groups.filter p) = nodes groups :=
  sum_filter _ p groups

/-- What a thread has after `releaseToOSMaybe` has chosen the groups. -/
structure Extracted (c : BlockConfig n) (I : Fin n) (populating : Bool) (th : Worker n)
    (nothing : Bool) (th' : Worker n) (groups : List GroupNode) : Prop where
  settled : ListSettled c groups
  held : th'.held = Function.update th.held (.flLock I) (some ⟨groups, populating⟩)
  hand : th'.own.hand = th.own.hand
  none_ : nothing = true → th'.own.groupsToRelease = []
  some_ : nothing = false → th'.own.releaseClass = I

theorem extract_safe (other : I ≠ 0) (o : Outside)
    (list : th.held (.flLock I) = some ⟨groups, populating⟩) (settled : ListSettled c groups)
    (none_ : th.own.groupsToRelease = []) :
    (discipline c).Safe (onList I fun own groups =>
      if o.succeeds then
        (({ own with groupsToRelease := groups.filter o.releases, releaseClass := I },
          groups.filter fun group => !o.releases group), (groups.filter o.releases).isEmpty)
      else ((own, groups), true)) (fun nothing th' => ∃ groups',
        Extracted c I populating th nothing th' groups') th := by
  apply Discipline.Safe.under list
  intro good _
  dsimp only
  split_ifs
  · refine ⟨?_, ⟨good.own.chunks_le, settled.filter _, fun _ => other⟩, fun zero => absurd zero other,
      _, settled.filter _, rfl, rfl, ?_, fun _ => rfl⟩
    · have before : th.own.places = (fun J => (th.own.chunks J : Multiset Nat)) + th.own.hand +
          Pi.single I (recorded []) + Pi.single 0 (nodes []) := by
        unfold Locals.places
        rw [none_, recorded_nil, Pi.single_zero, Pi.single_zero]
      change _ + Pi.single I (recorded (groups.filter o.releases)) + _ + listPlaces I _ =
        th.own.places + listPlaces I groups
      rw [before]
      refine worth_exchange 0 other ?_ ?_ ?_
      · rw [recorded_filter, recorded_nil, add_zero]
      · rw [nodes_filter, nodes_nil]
      · rw [Pi.single_zero, add_zero]
    · intro nothing
      exact List.isEmpty_iff.mp nothing
  · refine ⟨rfl, good.own, fun zero => absurd zero other, _, settled, rfl, rfl, fun _ => none_, nofun⟩

theorem releaseGroups_safe {nothing : Bool} (other : I ≠ 0)
    (none_ : nothing = true → th.own.groupsToRelease = [])
    (some_ : nothing = false → th.own.releaseClass = I) :
    (discipline c).Safe (releaseGroups c I nothing) (fun _ th' => Released th th') th := by
  unfold releaseGroups
  cases nothing with
  | true => exact Discipline.Safe.pure fun _ => ⟨rfl, none_ rfl, rfl⟩
  | false => exact mergeGroupsToReleaseBack_safe other (some_ rfl)

theorem releaseToOS_safe (other : I ≠ 0) (none_ : th.own.groupsToRelease = []) :
    (discipline c).Safe (releaseToOS c I) (fun _ th' => Released th th') th := by
  refine acquire_pages fun waits info zero => ?_
  refine acquire_list fun waits₁ groups populating settled => ?_
  refine Discipline.Safe.bind choose_safe ?_
  rintro o th₀ - same
  subst th₀
  refine Discipline.Safe.bind (extract_safe other o (Thread.put_held_self ..) (settled.2 other) none_) ?_
  rintro nothing th₂ - ⟨groups₂, settled₂, held₂, hand₂, nothing₂, class₂⟩
  refine release_list (by rw [held₂, Function.update_self])
    ⟨fun zero => absurd zero other, fun _ => settled₂⟩ ?_
  refine Discipline.Safe.bind (releaseGroups_safe other nothing₂ class₂) ?_
  rintro _ th₃ - ⟨held₃, released₃, hand₃⟩
  have outside : th₃.held = (th.put (.mmLock I) (some info)).held := by
    rw [held₃]
    exact held_released waits₁ held₂
  have pages : th₃.held (.mmLock I) = some info := by
    rw [outside, Thread.put_held_self]
  intro good
  refine ⟨info, pages, ⟨good.held (.mmLock I) info pages, zero⟩, fun _ => ⟨?_, released₃, hand₃.trans hand₂⟩⟩
  apply held_released waits
  rw [outside]
  exact (Function.update_eq_self ..).symm

end Extract

end Scudo.Primary.Allocator64
