import Scudo.Primary.PushSafe

/-!
Popping blocks, with `populateFreeListAndPopBlocks` where the free list is empty: the blocks that are
added to a region were above `AllocatedUser`.
-/

namespace Scudo.Primary.Allocator64
open Scudo.Lib.Guarded

theorem mmLock_ne {n : Nat} (I J : Fin n) : Lock.mmLock I ≠ Lock.flLock J := by simp

variable {n : Nat} [NeZero n]

section Pages

variable {c : BlockConfig n} {I : Fin n} {th : Worker n} {info : MemMapInfo}

/-- The thread has this information of the region, which it has locked. -/
abbrev Paged (I : Fin n) (info : MemMapInfo) (hand : Places n) (th th' : Worker n) : Prop :=
  Leaves I (.mmLock I) (some info) hand th th'

theorem onPages_safe {α : Type} {f : Outside → MemMapInfo → MemMapInfo × α}
    {post : α → Worker n → Prop} (pages : th.held (.mmLock I) = some info)
    (each : info.Intact c I → ∀ o, (f o info).1.places c I = info.places c I ∧
      (f o info).1.Intact c I ∧
      ∀ th', Paged I (f o info).1 th.own.hand th th' → post (f o info).2 th') :
    (discipline c).Safe (onPages I f) post th := by
  apply Discipline.Safe.under pages
  intro good o
  obtain ⟨same, intact, holds⟩ := each (good.held (.mmLock I) info pages) o
  refine ⟨?_, good.own, intact, holds _ ⟨rfl, Kept.refl, rfl⟩⟩
  change th.own.places + MemMapInfo.places c I (f o info).1 = th.own.places + info.places c I
  rw [same]

/-- The thread has the region, and no blocks are being added. -/
def Ready (I : Fin n) (hand : Places n) (th th' : Worker n) : Prop :=
  ∃ info : MemMapInfo, info.numberOfBlocks = 0 ∧ Paged I info hand th th'

theorem Ready.intro {hand : Places n} {th' : Worker n} (after : Paged I info hand th th')
    (zero : info.numberOfBlocks = 0) : Ready I hand th th' :=
  ⟨info, zero, after⟩

theorem onPages_look {α : Type} {f : MemMapInfo → α} (pages : th.held (.mmLock I) = some info)
    (zero : info.numberOfBlocks = 0) :
    (discipline c).Safe (onPages I fun _ info => (info, f info))
      (fun _ th' => Ready I th.own.hand th th') th := by
  apply onPages_safe pages
  intro intact _
  exact ⟨rfl, intact, fun _ after => Ready.intro after zero⟩

theorem reserveRegion_safe (pages : th.held (.mmLock I) = some info)
    (zero : info.numberOfBlocks = 0) :
    (discipline c).Safe (reserveRegion c I) (fun _ th' => Ready I th.own.hand th th') th := by
  apply onPages_safe pages
  intro intact o
  have reserved : MemMapInfo.Intact c I { info with isAllocated := true } :=
    ⟨intact.whole, intact.room, intact.inside, intact.ahead⟩
  split_ifs
  · exact ⟨rfl, reserved, fun _ after => Ready.intro after zero⟩
  · exact ⟨rfl, intact, fun _ after => Ready.intro after zero⟩
  · exact ⟨rfl, intact, fun _ after => Ready.intro after zero⟩

/-- The mapping that is added has room for the blocks that are missing, and not much more. -/
theorem mapSize_bounds {missing : Nat}
    (le : missing ≤ c.maxNumCachedHint * c.getSizeByClassId I) :
    missing ≤ roundUp 64 missing c.mapSizeIncrement ∧
      roundUp 64 missing c.mapSizeIncrement < missing + c.mapSizeIncrement := by
  have fits := c.mapFits I
  have positive := isPowerOfTwo_pos c.increment
  have some_ : 0 < c.maxNumCachedHint * c.getSizeByClassId I :=
    Nat.mul_pos (by have hint := c.hint_ge; omega) (c.positive I)
  rw [roundUp_eq c.increment (by omega) (by omega)]
  exact ⟨le_roundUpSlow missing positive, roundUpSlow_lt missing positive⟩

/-- There are blocks to be added. -/
structure Mapped (c : BlockConfig n) (I : Fin n) (th th' : Worker n) (info : MemMapInfo) : Prop where
  intro ::
  after : Paged I info th.own.hand th th'
  zero : info.numberOfBlocks = 0
  room : info.allocatedUser + c.getMaxCached (c.getSizeByClassId I) * c.getSizeByClassId I ≤
    info.mappedUser

theorem mapMore_safe (pages : th.held (.mmLock I) = some info) (zero : info.numberOfBlocks = 0) :
    (discipline c).Safe (mapMore c I) (fun more th' => Ready I th.own.hand th th' ∧
      (more = true → ∃ info', Mapped c I th th' info')) th := by
  apply onPages_safe pages
  intro intact o
  obtain ⟨whole, room, inside, ahead⟩ := intact
  have start : info.allocatedUser ≤ info.mappedUser := le_trans (Nat.le_add_right _ _) room
  have atMost : c.getMaxCached (c.getSizeByClassId I) * c.getSizeByClassId I ≤
      c.maxNumCachedHint * c.getSizeByClassId I :=
    Nat.mul_le_mul_right _ (c.getMaxCached_le _)
  dsimp only
  generalize total : info.allocatedUser + c.getMaxCached (c.getSizeByClassId I) *
    c.getSizeByClassId I = totalUserBytes
  split_ifs with missing exhausts succeeds
  · refine ⟨rfl, ⟨whole, room, inside, ahead⟩, ?_⟩
    exact fun _ after => ⟨Ready.intro after zero, nofun⟩
  · obtain ⟨enough, small⟩ := mapSize_bounds (c := c) (I := I)
      (by omega : totalUserBytes - info.mappedUser ≤ _)
    refine ⟨rfl, ⟨whole, ?_, ?_, ?_⟩, ?_⟩
    · exact room.trans (Nat.le_add_right _ _)
    · change info.mappedUser + roundUp 64 _ _ ≤ _
      omega
    · change info.mappedUser + roundUp 64 _ _ < info.allocatedUser + _ + _
      omega
    · intro th' after
      have room' : totalUserBytes ≤ info.mappedUser +
          roundUp 64 (totalUserBytes - info.mappedUser) c.mapSizeIncrement := by omega
      exact ⟨Ready.intro after zero, fun _ => ⟨_, Mapped.intro after zero (total.trans_le room')⟩⟩
  · refine ⟨rfl, ⟨whole, room, inside, ahead⟩, ?_⟩
    exact fun _ after => ⟨Ready.intro after zero, nofun⟩
  · refine ⟨rfl, ⟨whole, room, inside, ahead⟩, fun th' after => ⟨Ready.intro after zero, fun _ => ?_⟩⟩
    exact ⟨_, Mapped.intro after zero (total.trans_le (Nat.le_of_not_lt missing))⟩

/-- The blocks that are added are the first ones above `AllocatedUser`. -/
theorem unallocated_split {first count : Nat} (le : first + count ≤ c.limit I) :
    unallocated c I first =
      ((List.range count).map fun k => c.block I (first + k) : List Nat) +
        unallocated c I (first + count) := by
  unfold unallocated
  have parts : List.range' first (c.limit I - first) =
      List.range' first count ++ List.range' (first + count) (c.limit I - (first + count)) := by
    rw [List.range'_append_1]
    congr 1
    omega
  rw [parts, List.map_append, ← Multiset.coe_add]
  congr 2
  rw [List.range'_eq_map_range, List.map_map]
  rfl

/-- Some blocks are added, and they are mapped. -/
theorem numberOfBlocks_bounds (intact : info.Intact c I)
    (room : info.allocatedUser + c.getMaxCached (c.getSizeByClassId I) * c.getSizeByClassId I ≤
      info.mappedUser) {numberOfBlocks : Nat}
    (eq : numberOfBlocks = min (c.maxNumBatches * c.getMaxCached (c.getSizeByClassId I))
      (wrap 32 ((info.mappedUser - info.allocatedUser) / c.getSizeByClassId I))) :
    0 < numberOfBlocks ∧
      info.allocatedUser + numberOfBlocks * c.getSizeByClassId I ≤ info.mappedUser := by
  have positive := c.positive I
  have fits := c.countFits I
  have cached := c.getMaxCached_pos (c.getSizeByClassId I)
  have ahead := intact.ahead
  have below : (info.mappedUser - info.allocatedUser) / c.getSizeByClassId I < 2 ^ 32 := by
    rw [Nat.div_lt_iff_lt_mul positive]
    omega
  have enough : c.getMaxCached (c.getSizeByClassId I) ≤
      (info.mappedUser - info.allocatedUser) / c.getSizeByClassId I := by
    rw [Nat.le_div_iff_mul_le positive]
    omega
  rw [wrap_eq below] at eq
  constructor
  · rw [eq]
    exact lt_min (Nat.mul_pos c.batches_pos cached) (cached.trans_le enough)
  · have most := Nat.mul_le_mul_right (c.getSizeByClassId I) (eq.trans_le (Nat.min_le_right _ _))
    have div := Nat.div_mul_le_self (info.mappedUser - info.allocatedUser) (c.getSizeByClassId I)
    omega

theorem compactPtr_eq {first : Nat} (k : Nat) (allocated : info.allocatedUser = c.getSizeByClassId I * first) :
    c.compactPtrInternal (c.regionBeg I)
      (c.regionBeg I + info.allocatedUser + k * c.getSizeByClassId I) = c.block I (first + k) := by
  unfold BlockConfig.block
  rw [allocated]
  congr 1
  ring

theorem limit_le {count : Nat} (inside : count * c.getSizeByClassId I ≤ c.regionSize - c.regionBase I) :
    count ≤ c.limit I :=
  (Nat.le_div_iff_mul_le (c.positive I)).mpr inside

theorem fillArray_safe (pages : th.held (.mmLock I) = some info) (zero : info.numberOfBlocks = 0)
    (room : info.allocatedUser + c.getMaxCached (c.getSizeByClassId I) * c.getSizeByClassId I ≤
      info.mappedUser) :
    (discipline c).Safe (fillArray c I) (fun array th' => array ≠ [] ∧ ∃ info' : MemMapInfo,
      Paged I info' (th.own.hand + Pi.single I (array : Multiset Nat)) th th') th := by
  apply Discipline.Safe.under pages
  intro good _
  have intact : info.Intact c I := good.held (.mmLock I) info pages
  obtain ⟨first, allocated⟩ := intact.whole
  have positive := c.positive I
  obtain ⟨some_, mapped⟩ := numberOfBlocks_bounds intact room rfl
  have array_ := fun k => compactPtr_eq k allocated
  dsimp only
  simp only [array_]
  generalize min (c.maxNumBatches * c.getMaxCached (c.getSizeByClassId I))
    (wrap 32 ((info.mappedUser - info.allocatedUser) / c.getSizeByClassId I)) = numberOfBlocks
    at some_ mapped ⊢
  have number : info.allocatedUser / c.getSizeByClassId I = first := by
    rw [allocated, Nat.mul_div_cancel_left _ positive]
  have inRegion : first + numberOfBlocks ≤ c.limit I := by
    apply limit_le
    rw [Nat.add_mul, Nat.mul_comm first, ← allocated]
    exact mapped.trans intact.inside
  have parts := unallocated_split inRegion
  refine ⟨?_, good.own.of_hand _, ⟨intact.whole, mapped, intact.inside, intact.ahead⟩, ?_, ?_⟩
  · change Locals.places (th.own.give I _) +
        Pi.single I (unallocated c I (info.allocatedUser / c.getSizeByClassId I + numberOfBlocks)) =
      th.own.places + Pi.single I (unallocated c I (info.allocatedUser / c.getSizeByClassId I +
        info.numberOfBlocks))
    rw [zero, number, Nat.add_zero, parts, single_add]
    unfold Locals.places Locals.give
    dsimp only
    abel
  · simp only [ne_eq, List.map_eq_nil_iff, List.range_eq_nil]
    omega
  · exact ⟨_, rfl, Kept.of_hand, rfl⟩

theorem commit_safe (pages : th.held (.mmLock I) = some info) :
    (discipline c).Safe (commit c I) (fun _ th' => Ready I th.own.hand th th') th := by
  apply onPages_safe pages
  intro intact _
  obtain ⟨whole, room, inside, ahead⟩ := intact
  refine ⟨?_, ⟨?_, ?_, inside, ?_⟩, fun th' after => Ready.intro after rfl⟩
  · unfold MemMapInfo.places
    dsimp only
    rw [Nat.add_mul_div_left _ _ (c.positive I), Nat.add_zero]
  · exact Nat.dvd_add whole (Nat.dvd_mul_right _ _)
  · dsimp only
    rw [Nat.zero_mul, Nat.add_zero, Nat.mul_comm]
    exact room
  · dsimp only
    omega

end Pages

section Locks

variable {c : BlockConfig n} {I : Fin n} {l m : Lock n} {hand hand' : Places n}
  {th th' th'' : Worker n}

/-- Something happens to another resource at the same time. -/
theorem Leaves.put {r : Option (Resource l)} {x : Option (Resource m)} (different : l ≠ m)
    (leaves : Leaves I l r hand th th') : Leaves I l r hand (th.put m x) (th'.put m x) := by
  refine ⟨?_, leaves.kept, leaves.hand⟩
  change Function.update th'.held m x = Function.update (Function.update th.held m x) l r
  rw [leaves.held, Function.update_comm different]

theorem Leaves.there_of_ne {r : Option (Resource l)} (different : m ≠ l)
    (leaves : Leaves I l r hand th th') : th'.held m = th.held m := by
  rw [leaves.held, Function.update_of_ne different]

theorem Returned.trans (first : Returned I hand th th') (second : Returned I hand' th' th'') :
    Returned I hand' th th'' :=
  ⟨second.held.trans first.held, first.kept.trans second.kept, second.hand⟩

end Locks

section Populate

variable {c : BlockConfig n} {ops : BatchClass n} {I : Fin n} {th : Worker n} {info : MemMapInfo}
  {groups : List GroupNode} {populating : Bool} {rest : Places n} {maxBlockCount : Nat}

theorem choose_safe :
    (discipline c).Safe (Prog.choose : Run n Outside) (fun _ th' => th' = th) th :=
  Discipline.Safe.choose fun _ => rfl

theorem pushShuffled_safe (safe : ops.Safe c) (other : I ≠ 0) (segments : List (List Nat))
    (one : ∀ segment ∈ segments, OneGroup c (headGroup c segment) segment)
    (some_ : ∀ segment ∈ segments, segment ≠ [])
    (list : th.held (.flLock I) = some ⟨groups, populating⟩) (settled : Settled c I groups)
    (has : th.own.hand = rest + Pi.single I (segments.flatten : Multiset Nat)) :
    (discipline c).Safe (pushShuffled c ops I segments) (Pushed c I populating rest th) th := by
  induction segments generalizing groups th with
  | nil =>
    unfold pushShuffled
    apply Discipline.Safe.pure
    intro _
    rw [List.flatten_nil, Multiset.coe_nil, Pi.single_zero, add_zero] at has
    exact ⟨groups, settled, Leaves.refl list has⟩
  | cons segment segments ih =>
    obtain ⟨one_, ones⟩ := List.forall_mem_cons.mp one
    obtain ⟨segment_, others⟩ := List.forall_mem_cons.mp some_
    unfold pushShuffled
    refine Discipline.Safe.bind choose_safe ?_
    rintro o th₀ - same
    subst th₀
    have perm := o.shuffle_perm segment
    have has₁ : th.own.hand = rest + Pi.single I (segments.flatten : Multiset Nat) +
        Pi.single I (o.shuffle segment : Multiset Nat) := by
      rw [has, Multiset.coe_eq_coe.mpr perm, add_assoc, ← single_add, Multiset.coe_add,
        List.flatten_cons, Multiset.coe_eq_coe.mpr List.perm_append_comm]
    have shuffled : OneGroup c (headGroup c (o.shuffle segment)) (o.shuffle segment) := by
      intro x member
      obtain ⟨head, tail, same⟩ := List.exists_cons_of_ne_nil (List.ne_nil_of_mem member)
      have first : head ∈ o.shuffle segment := by rw [same]; exact List.mem_cons_self
      rw [one_ x (perm.mem_iff.mp member), same]
      exact (one_ head (perm.mem_iff.mp first)).symm
    refine Discipline.Safe.bind (pushBlocksImpl_safe safe other
      (fun empty => segment_ (perm.symm.trans (.of_eq empty)).eq_nil) (fun _ => shuffled)
      (fun unsorted => absurd unsorted.symm Bool.false_ne_true) list (settled.2 other) has₁) ?_
    rintro _ th₁ - ⟨groups₁, settled₁, first⟩
    refine Discipline.Safe.mono (ih ones others first.there settled₁ first.hand) ?_
    rintro _ th₂ - ⟨groups₂, settled₂, second⟩
    exact ⟨groups₂, settled₂, first.trans second⟩

theorem pushNewBlocks_safe (safe : I ≠ 0 → ops.Safe c) {array : List Nat} (some_ : array ≠ [])
    (list : th.held (.flLock I) = some ⟨groups, populating⟩) (settled : Settled c I groups)
    (has : th.own.hand = rest + Pi.single I (array : Multiset Nat)) :
    (discipline c).Safe (pushNewBlocks c ops I array) (Pushed c I populating rest th) th := by
  have ones := fun segment (member : segment ∈ segments c array) => segments_oneGroup c member
  unfold pushNewBlocks
  rw [if_neg some_]
  split_ifs with batchClass
  · subst batchClass
    exact pushBatchClass_safe some_ list has
  · apply pushShuffled_safe (safe batchClass) batchClass _ (fun s member => (ones s member).2)
      (fun s member => (ones s member).1) list settled
    rw [segments_flatten]
    exact has

/-- The thread has the region, and the blocks that were popped. -/
structure Supplied (c : BlockConfig n) (I : Fin n) (maxBlockCount : Nat) (th : Worker n)
    (blocks : List Nat) (th' : Worker n) : Prop where
  ready : Ready I (th.own.hand + Pi.single I (blocks : Multiset Nat)) th th'
  length_le : blocks.length ≤ popMax c I maxBlockCount

theorem Supplied.none {th' : Worker n} (ready : Ready I th.own.hand th th') :
    Supplied c I maxBlockCount th [] th' := by
  refine ⟨?_, Nat.zero_le _⟩
  rw [Multiset.coe_nil, Pi.single_zero, add_zero]
  exact ready

theorem Ready.trans {hand hand' : Places n} {th' th'' : Worker n} (first : Ready I hand th th')
    (second : Ready I hand' th' th'') : Ready I hand' th th'' := by
  obtain ⟨_, -, first⟩ := first
  obtain ⟨info, zero, second⟩ := second
  exact ⟨info, zero, first.trans second⟩

/-- What is done under both locks of a region, once there are blocks to be added. -/
theorem addBlocks_safe (safe : I ≠ 0 → ops.Safe c) {array : List Nat} (some_ : array ≠ [])
    (pages : th.held (.mmLock I) = some info)
    (has : th.own.hand = rest + Pi.single I (array : Multiset Nat)) :
    (discipline c).Safe (do
      Prog.acquire (.flLock I)
      pushNewBlocks c ops I array
      let blocks ← popBlocksImpl ops I maxBlockCount
      commit c I
      Prog.release (.flLock I)
      return blocks) (fun blocks th' => Ready I (rest + Pi.single I (blocks : Multiset Nat)) th th' ∧
        blocks.length ≤ popMax c I maxBlockCount) th := by
  refine acquire_list fun waits groups populating settled => ?_
  refine Discipline.Safe.bind
    (pushNewBlocks_safe safe some_ (Thread.put_held_self ..) settled has) ?_
  rintro _ th₁ - ⟨groups₁, settled₁, pushed⟩
  refine Discipline.Safe.bind (popBlocksImpl_safe safe pushed.there settled₁) ?_
  rintro blocks th₂ - ⟨⟨groups₂, settled₂, popped⟩, length⟩
  rw [pushed.hand] at popped
  have inside := pushed.trans popped
  have pages₂ : th₂.held (.mmLock I) = some info := by
    rw [inside.there_of_ne (mmLock_ne I I), th.put_held_of_ne (mmLock_ne I I), pages]
  refine Discipline.Safe.bind (commit_safe pages₂) ?_
  rintro _ th₃ - ⟨info₃, zero₃, committed⟩
  have list₃ : th₃.held (.flLock I) = some ⟨groups₂, populating⟩ := by
    rw [committed.there_of_ne (mmLock_ne I I).symm, inside.there]
  refine release_list list₃ settled₂ (Discipline.Safe.pure fun _ => ?_)
  rw [popped.hand] at committed
  have outside := inside.released waits
  have start : Leaves I (.mmLock I) (some info) _ th (th₂.put (.flLock I) none) :=
    Leaves.of_held pages outside.held outside.kept outside.hand
  exact ⟨⟨info₃, zero₃, start.trans (committed.put (mmLock_ne I I))⟩, length⟩

theorem populateFreeListAndPopBlocks_safe (safe : I ≠ 0 → ops.Safe c)
    (pages : th.held (.mmLock I) = some info) (zero : info.numberOfBlocks = 0) :
    (discipline c).Safe (populateFreeListAndPopBlocks c ops I maxBlockCount)
      (Supplied c I maxBlockCount th) th := by
  unfold populateFreeListAndPopBlocks
  refine Discipline.Safe.bind (reserveRegion_safe pages zero) ?_
  rintro reserved th₁ - ready₁
  obtain ⟨info₁, zero₁, first⟩ := ready₁
  have ready₁ := Ready.intro first zero₁
  cases reserved with
  | false => exact Discipline.Safe.pure fun _ => Supplied.none ready₁
  | true =>
    refine Discipline.Safe.bind (mapMore_safe first.there zero₁) ?_
    rintro more th₂ - ⟨ready₂, mapped⟩
    rw [first.hand] at ready₂
    cases more with
    | false => exact Discipline.Safe.pure fun _ => Supplied.none (ready₁.trans ready₂)
    | true =>
      obtain ⟨info₂, second, zero₂, room⟩ := mapped rfl
      refine Discipline.Safe.bind (fillArray_safe second.there zero₂ room) ?_
      rintro array th₃ - ⟨some_, info₃, third⟩
      have hand : th₂.own.hand = th.own.hand := by rw [second.hand, first.hand]
      rw [hand] at third
      refine Discipline.Safe.mono (addBlocks_safe safe some_ third.there third.hand) ?_
      rintro blocks th₄ - ⟨⟨info₄, zero₄, last⟩, length⟩
      exact ⟨⟨info₄, zero₄, ((first.trans second).trans third).trans last⟩, length⟩

theorem populate_safe (safe : I ≠ 0 → ops.Safe c) (pages : th.held (.mmLock I) = some info)
    (zero : info.numberOfBlocks = 0) :
    (discipline c).Safe (populate c ops I maxBlockCount)
      (fun result th' => Supplied c I maxBlockCount th result.1 th') th := by
  unfold populate
  refine Discipline.Safe.bind (onPages_look pages zero) ?_
  rintro exhausted th₁ - ready₁
  obtain ⟨info₁, zero₁, first⟩ := ready₁
  have ready₁ := Ready.intro first zero₁
  split_ifs
  · exact Discipline.Safe.pure fun _ => Supplied.none ready₁
  · refine Discipline.Safe.bind (populateFreeListAndPopBlocks_safe safe first.there zero₁) ?_
    rintro blocks th₂ - ⟨⟨info₂, zero₂, second⟩, length⟩
    rw [first.hand] at second
    refine Discipline.Safe.bind (onPages_look second.there zero₂) ?_
    rintro _ th₃ - ready₃
    rw [second.hand] at ready₃
    apply Discipline.Safe.pure
    intro _
    exact ⟨(ready₁.trans (Ready.intro second zero₂)).trans ready₃, length⟩

end Populate

section Pop

variable {c : BlockConfig n} {ops : BatchClass n} {I : Fin n} {th th' th'' : Worker n}
  {info : MemMapInfo} {groups : List GroupNode} {populating : Bool} {maxBlockCount : Nat}

theorem acquire_pages {α : Type} {k : Unit → Run n α} {post : α → Worker n → Prop}
    (next : th.held (.mmLock I) = none → ∀ info : MemMapInfo, info.numberOfBlocks = 0 →
      (discipline c).Safe (k ()) post (th.put (.mmLock I) (some info))) :
    (discipline c).Safe (Prog.acquire (.mmLock I) >>= k) post th :=
  fun _ waits info settled => next waits info settled.2

theorem release_pages {α : Type} {k : Unit → Run n α} {post : α → Worker n → Prop}
    (pages : th.held (.mmLock I) = some info) (zero : info.numberOfBlocks = 0)
    (next : (discipline c).Safe (k ()) post (th.put (.mmLock I) none)) :
    (discipline c).Safe (Prog.release (.mmLock I) >>= k) post th :=
  fun good => ⟨info, pages, ⟨good.held (.mmLock I) info pages, zero⟩, next⟩

/-- The blocks that an operation returns are in the thread's hands. -/
structure Taken (c : BlockConfig n) (I : Fin n) (maxBlockCount : Nat) (th : Worker n)
    (blocks : List Nat) (th' : Worker n) : Prop where
  returned : Returned I (th.own.hand + Pi.single I (blocks : Multiset Nat)) th th'
  length_le : blocks.length ≤ popMax c I maxBlockCount

/-- An operation that has not got any blocks goes on. -/
theorem Taken.after {blocks : List Nat} (first : Returned I th.own.hand th th')
    (taken : Taken c I maxBlockCount th' blocks th'') : Taken c I maxBlockCount th blocks th'' := by
  obtain ⟨returned, length⟩ := taken
  rw [first.hand] at returned
  exact ⟨first.trans returned, length⟩

theorem Taken.nothing (taken : Taken c I maxBlockCount th [] th') : Returned I th.own.hand th th' := by
  have returned := taken.returned
  rw [Multiset.coe_nil, Pi.single_zero, add_zero] at returned
  exact returned

/-- A list is locked, popped and unlocked. -/
theorem popLocked_safe {α : Type} {k : List Nat → Run n α} {post : α → Worker n → Prop}
    (safe : I ≠ 0 → ops.Safe c)
    (next : ∀ blocks th', Taken c I maxBlockCount th blocks th' →
      (discipline c).Safe (k blocks) post th') :
    (discipline c).Safe (do
      Prog.acquire (.flLock I)
      let blocks ← popBlocksImpl ops I maxBlockCount
      Prog.release (.flLock I)
      k blocks) post th := by
  refine acquire_list fun waits groups populating settled => ?_
  refine Discipline.Safe.bind (popBlocksImpl_safe safe (Thread.put_held_self ..) settled) ?_
  rintro blocks th₁ - ⟨⟨groups₁, settled₁, popped⟩, length⟩
  exact release_list popped.there settled₁ (next blocks _ ⟨popped.released waits, length⟩)

theorem setPopulating_safe {α : Type} {k : Unit → Run n α} {post : α → Worker n → Prop}
    {isPopulating : Bool} (list : th.held (.flLock I) = some ⟨groups, populating⟩)
    (next : ∀ th', After I groups isPopulating th.own.hand th th' →
      (discipline c).Safe (k ()) post th') :
    (discipline c).Safe (setPopulating I isPopulating >>= k) post th := by
  have safe : (discipline c).Safe (setPopulating I isPopulating)
      (fun _ th' => After I groups isPopulating th.own.hand th th') th := by
    apply Discipline.Safe.under list
    intro good _
    have intact : I = 0 → BatchClassIntact (batchClassMax c) groups := good.held (.flLock I) _ list
    exact ⟨rfl, good.own, intact, rfl, Kept.refl, rfl⟩
  exact Discipline.Safe.bind safe fun _ th' _ after => next th' after

theorem isPopulating_safe {α : Type} {k : Bool → Run n α} {post : α → Worker n → Prop}
    (list : th.held (.flLock I) = some ⟨groups, populating⟩)
    (next : ∀ th', After I groups populating th.own.hand th th' →
      (discipline c).Safe (k populating) post th') :
    (discipline c).Safe (isPopulating I >>= k) post th := by
  have safe : (discipline c).Safe (isPopulating I) (fun is th' => is = populating ∧
      After I groups populating th.own.hand th th') th := by
    apply Discipline.Safe.under list
    intro good _
    have intact : I = 0 → BatchClassIntact (batchClassMax c) groups := good.held (.flLock I) _ list
    exact ⟨rfl, good.own, intact, rfl, rfl, Kept.refl, rfl⟩
  refine Discipline.Safe.bind safe ?_
  rintro _ th' - ⟨rfl, after⟩
  exact next th' after

/-- `isPopulatingFreeList` is set and the free list left to the others, until the region is
populated. -/
theorem populateAlone_safe {info : FreeListInfo} (safe : I ≠ 0 → ops.Safe c)
    (waits : th.held (.flLock I) = none) (settled : Settled c I groups)
    (locked : After I groups populating th.own.hand (th.put (.flLock I) (some info)) th') :
    (discipline c).Safe (do
      setPopulating I true
      Prog.release (.flLock I)
      Prog.acquire (.mmLock I)
      let result ← populate c ops I maxBlockCount
      Prog.acquire (.flLock I)
      setPopulating I false
      Prog.release (.flLock I)
      Prog.release (.mmLock I)
      return result) (fun result th' => Taken c I maxBlockCount th result.1 th') th' := by
  refine setPopulating_safe locked.there fun th₁ first => ?_
  refine release_list first.there settled ?_
  have before := (locked.trans first).released waits
  rw [locked.hand] at before
  refine acquire_pages fun waitsPages info zero => ?_
  refine Discipline.Safe.bind (populate_safe safe (Thread.put_held_self ..) zero) ?_
  rintro ⟨blocks, exhausted⟩ th₂ - ⟨⟨info₂, zero₂, supplied⟩, length⟩
  refine acquire_list fun waits₂ groups₂ populating₂ settled₂ => ?_
  refine setPopulating_safe (Thread.put_held_self ..) fun th₃ third => ?_
  refine release_list third.there settled₂ ?_
  have pages : (th₃.put (.flLock I) none).held (.mmLock I) = some info₂ := by
    rw [(third.released waits₂).held, supplied.there]
  refine release_pages pages zero₂ (Discipline.Safe.pure fun _ => ⟨?_, length⟩)
  have after := third.released waits₂
  have inside : Leaves I (.mmLock I) (some info₂) _ _ (th₃.put (.flLock I) none) :=
    supplied.trans (Leaves.of_held supplied.there after.held after.kept after.hand)
  have whole := before.trans (inside.released waitsPages)
  have hand : th₂.own.hand = th.own.hand + Pi.single I (blocks : Multiset Nat) := by
    rw [supplied.hand]
    exact congrArg (· + _) before.hand
  exact ⟨whole.held, whole.kept, whole.hand.trans hand⟩

theorem popBlocksWithCV_safe (safe : I ≠ 0 → ops.Safe c) (rounds : Nat) :
    (discipline c).Safe (popBlocksWithCV c ops I maxBlockCount rounds)
      (fun result th' => Taken c I maxBlockCount th result.1 th') th := by
  induction rounds generalizing th with
  | zero => exact trivial
  | succ rounds ih =>
    unfold popBlocksWithCV
    refine acquire_list fun waits groups populating settled => ?_
    refine isPopulating_safe (Thread.put_held_self ..) fun th₁ first => ?_
    cases populating with
    | false => exact populateAlone_safe safe waits settled first
    | true =>
      refine release_list first.there settled ?_
      have before := first.released waits
      refine acquire_list fun waits₁ groups₁ populating₁ settled₁ => ?_
      refine Discipline.Safe.bind (popBlocksImpl_safe safe (Thread.put_held_self ..) settled₁) ?_
      rintro blocks th₂ - ⟨⟨groups₂, settled₂, second⟩, length⟩
      have taken : Taken c I maxBlockCount th blocks (th₂.put (.flLock I) none) :=
        Taken.after before ⟨second.released waits₁, length⟩
      split_ifs with some_
      · exact release_list second.there settled₂ (Discipline.Safe.pure fun _ => taken)
      · obtain rfl : blocks = [] := not_not.mp some_
        refine isPopulating_safe second.there fun th₃ third => ?_
        have hand : th₂.own.hand = th.own.hand := taken.nothing.hand
        have nothing := before.trans ((second.trans third).released waits₁)
        rw [hand] at nothing
        cases populating₁ with
        | false =>
          refine release_list third.there settled₂ ?_
          exact Discipline.Safe.mono ih fun result th' _ taken => Taken.after nothing taken
        | true =>
          refine release_list third.there settled₂ ?_
          refine popLocked_safe safe fun blocks th₄ fourth => ?_
          have taken := Taken.after nothing fourth
          split_ifs with some_
          · exact Discipline.Safe.pure fun _ => taken
          · obtain rfl : blocks = [] := not_not.mp some_
            exact Discipline.Safe.mono ih fun result th' _ last => Taken.after taken.nothing last

theorem popBlocksOrPopulate_safe (safe : I ≠ 0 → ops.Safe c) :
    (discipline c).Safe (popBlocksOrPopulate c ops I maxBlockCount)
      (fun result th' => Taken c I maxBlockCount th result.1 th') th := by
  unfold popBlocksOrPopulate
  split_ifs
  · refine Discipline.Safe.bind choose_safe ?_
    rintro o th₀ - same
    subst th₀
    exact popBlocksWithCV_safe safe o.rounds
  · refine acquire_pages fun waits info zero => ?_
    refine popLocked_safe safe fun blocks th₁ first => ?_
    have pages : th₁.held (.mmLock I) = some info := by
      rw [first.returned.held, Thread.put_held_self]
    have ready : Leaves I (.mmLock I) (some info) _ (th.put (.mmLock I) (some info)) th₁ :=
      Leaves.of_held (Thread.put_held_self ..) first.returned.held first.returned.kept
        first.returned.hand
    split_ifs with some_
    · exact release_pages pages zero
        (Discipline.Safe.pure fun _ => ⟨ready.released waits, first.length_le⟩)
    · obtain rfl : blocks = [] := not_not.mp some_
      have hand : th₁.own.hand = th.own.hand := first.nothing.hand
      refine Discipline.Safe.bind (populate_safe safe pages zero) ?_
      rintro ⟨blocks, exhausted⟩ th₂ - ⟨⟨info₂, zero₂, supplied⟩, length⟩
      rw [hand] at supplied
      exact release_pages supplied.there zero₂
        (Discipline.Safe.pure fun _ => ⟨(ready.trans supplied).released waits, length⟩)

theorem popBlocks_safe (safe : I ≠ 0 → ops.Safe c) :
    (discipline c).Safe (popBlocks c ops I maxBlockCount) (Taken c I maxBlockCount th) th := by
  unfold popBlocks
  refine popLocked_safe safe fun blocks th₁ first => ?_
  split_ifs with some_
  · exact Discipline.Safe.pure fun _ => first
  · obtain rfl : blocks = [] := not_not.mp some_
    refine Discipline.Safe.bind (popBlocksOrPopulate_safe safe) ?_
    rintro ⟨blocks, exhausted⟩ th₂ - second
    dsimp only
    split_ifs
    · exact trivial
    · exact Discipline.Safe.pure fun _ => Taken.after first.nothing second

end Pop

end Scudo.Primary.Allocator64
