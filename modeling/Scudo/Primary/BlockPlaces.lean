import Scudo.Primary.BlockRuns

/-!
Every block below `AllocatedUser` is in exactly one place, in every state of every run.
-/

namespace Scudo.Primary.Allocator64
open Scudo.Lib Scudo.Lib.Guarded

/-- Where a block can be: with the user, in a slot of a cache, in the hands of an operation that is
going on, recorded in a batch of a free list or of a group that is being released, or it is itself a
batch or a group of these. In the batch class the nodes are recorded, but for a group without a
batch. -/
inductive Place (n : Nat) (τ : Type) where
  | user
  | slots (t : τ)
  | hand (t : τ)
  | released (t : τ)
  | releasedNodes (t : τ)
  | freeList (I : Fin n)
  | nodes (I : Fin n)

variable {n : Nat} {τ : Type}

def Place.toSum : Place n τ ≃ Unit ⊕ ((τ ⊕ τ) ⊕ (τ ⊕ τ)) ⊕ (Fin n ⊕ Fin n) where
  toFun
    | .user => .inl ()
    | .slots t => .inr (.inl (.inl (.inl t)))
    | .hand t => .inr (.inl (.inl (.inr t)))
    | .released t => .inr (.inl (.inr (.inl t)))
    | .releasedNodes t => .inr (.inl (.inr (.inr t)))
    | .freeList I => .inr (.inr (.inl I))
    | .nodes I => .inr (.inr (.inr I))
  invFun
    | .inl () => .user
    | .inr (.inl (.inl (.inl t))) => .slots t
    | .inr (.inl (.inl (.inr t))) => .hand t
    | .inr (.inl (.inr (.inl t))) => .released t
    | .inr (.inl (.inr (.inr t))) => .releasedNodes t
    | .inr (.inr (.inl I)) => .freeList I
    | .inr (.inr (.inr I)) => .nodes I
  left_inv := by rintro (_ | _ | _ | _ | _ | _ | _) <;> rfl
  right_inv := by rintro (_ | ((_ | _) | (_ | _)) | (_ | _)) <;> rfl

instance [Fintype τ] : Fintype (Place n τ) := Fintype.ofEquiv _ Place.toSum.symm

theorem sum_places [Fintype τ] {M : Type} [AddCommMonoid M] (f : Place n τ → M) :
    ∑ p, f p = f .user +
      (∑ t, (f (.slots t) + f (.hand t) + f (.released t) + f (.releasedNodes t)) +
        ∑ I, (f (.freeList I) + f (.nodes I))) := by
  rw [← Place.toSum.symm.sum_comp]
  simp only [Fintype.sum_sum_type, Fintype.sum_unique, Finset.sum_add_distrib]
  rw [add_assoc (∑ t, f (.slots t) + ∑ t, f (.hand t))]
  rfl

variable [NeZero n]

section Resources

variable {c : BlockConfig n} [Fintype τ] {w : Caches n τ}

/-- The resource, whoever has it. -/
def Caches.Has (w : Caches n τ) (l : Lock n) (r : Resource l) : Prop :=
  w.shared l = some r ∨ ∃ t, (w.thread t).held l = some r

/-- Every resource is somewhere, once. -/
theorem Caches.Sound.resource (sound : w.Sound c) (l : Lock n) : ∃ r, w.Has l r ∧
    (discipline c).intact l r ∧ ∀ {M : Type} [AddCommMonoid M] (g : Resource l → M),
      (∑ t, ((w.thread t).held l).elim 0 g) + (w.shared l).elim 0 g = g r := by
  have once := sound.once l
  cases free : w.shared l with
  | some r =>
    have there : tokens w.shared l = 1 := by
      unfold tokens
      rw [free]
      rfl
    have none_ : ∀ t, (w.thread t).held l = none := by
      intro t
      have zero : ∑ t, tokens (w.thread t).held l = 0 := by omega
      have own := Finset.sum_eq_zero_iff.mp zero t (Finset.mem_univ t)
      unfold tokens at own
      cases held : (w.thread t).held l with
      | none => rfl
      | some x => simp [held] at own
    refine ⟨r, Or.inl free, (discipline c).intact_of_settled l r (sound.settled l r free), ?_⟩
    intro M _ g
    rw [Finset.sum_eq_zero fun t _ => by rw [none_ t]; rfl, zero_add]
    rfl
  | none =>
    have gone : tokens w.shared l = 0 := by
      unfold tokens
      rw [free]
      rfl
    rw [gone, add_zero] at once
    have some_ : ∃ t, tokens (w.thread t).held l ≠ 0 := by
      by_contra zero
      push Not at zero
      rw [Finset.sum_eq_zero fun t _ => zero t] at once
      exact absurd once (by decide)
    obtain ⟨t, own⟩ := some_
    obtain ⟨r, held⟩ : ∃ r, (w.thread t).held l = some r := by
      unfold tokens at own
      cases held : (w.thread t).held l with
      | none => simp [held] at own
      | some r => exact ⟨r, rfl⟩
    have others : ∀ u, u ≠ t → (w.thread u).held l = none := by
      intro u different
      have classical := Classical.decEq τ
      have pair : ∑ v ∈ {u, t}, tokens (w.thread v).held l ≤ ∑ v, tokens (w.thread v).held l :=
        Finset.sum_le_sum_of_subset (Finset.subset_univ _)
      rw [Finset.sum_pair different, once] at pair
      unfold tokens at pair own
      cases held' : (w.thread u).held l with
      | none => rfl
      | some x => simp [held, held'] at pair
    refine ⟨r, Or.inr ⟨t, held⟩, (sound.good t).held l r held, ?_⟩
    intro M _ g
    rw [Finset.sum_eq_single t (fun u _ different => by rw [others u different]; rfl)
      fun absent => absurd (Finset.mem_univ t) absent, held, Option.elim_none, add_zero]
    rfl

end Resources

/-- The blocks that are at a place. -/
def Caches.at (w : Caches n τ) (lists : Fin n → List GroupNode) : Place n τ → Places n
  | .user => w.user
  | .slots t => fun I => (w.thread t).own.chunks I
  | .hand t => (w.thread t).own.hand
  | .released t =>
    Pi.single (w.thread t).own.releaseClass (recorded (w.thread t).own.groupsToRelease)
  | .releasedNodes t => Pi.single 0 (nodes (w.thread t).own.groupsToRelease)
  | .freeList I => Pi.single I (recorded (lists I))
  | .nodes I => Pi.single 0 (if I = 0 then lone (lists I) else nodes (lists I))

section Total

variable {c : BlockConfig n} [Fintype τ] {w : Caches n τ} {lists : Fin n → List GroupNode}
  {pages : Fin n → MemMapInfo}

theorem listPlaces_eq (I : Fin n) (groups : List GroupNode) : listPlaces I groups =
    Pi.single I (recorded groups) + Pi.single 0 (if I = 0 then lone groups else nodes groups) := by
  unfold listPlaces
  split_ifs with zero
  · rw [zero, single_add]
  · rfl

/-- What the free lists and the mapped pages are, whoever has them. -/
structure Resources (c : BlockConfig n) (w : Caches n τ) (lists : Fin n → List GroupNode)
    (pages : Fin n → MemMapInfo) : Prop where
  list : ∀ I, ∃ populating, w.Has (.flLock I) ⟨lists I, populating⟩
  page : ∀ I, w.Has (.mmLock I) (pages I)
  batchClass : BatchClassIntact (batchClassMax c) (lists 0)
  intact : ∀ I, (pages I).Intact c I
  total : (∑ p, w.at lists p) + ∑ I, (pages I).places c I = allBlocks c

theorem Caches.Sound.resources (sound : w.Sound c) : ∃ lists pages, Resources c w lists pages := by
  choose info has intact sum using sound.resource
  refine ⟨fun I => (info (.flLock I)).blockList, fun I => info (.mmLock I),
    fun I => ⟨(info (.flLock I)).isPopulatingFreeList, has (.flLock I)⟩, fun I => has (.mmLock I),
    intact (.flLock 0) rfl, fun I => intact (.mmLock I), ?_⟩
  have guarded : (∑ t, (discipline c).stock (w.thread t).held) + (discipline c).stock w.shared =
      ∑ l, (discipline c).guarded l (info l) := by
    unfold Discipline.stock
    rw [Finset.sum_comm, ← Finset.sum_add_distrib]
    exact Finset.sum_congr rfl fun l _ => sum l ((discipline c).guarded l)
  have lists_ : ∑ I, (discipline c).guarded (.flLock I) (info (.flLock I)) =
      ∑ I, (Pi.single I (recorded (info (.flLock I)).blockList) +
        Pi.single 0 (if I = 0 then lone (info (.flLock I)).blockList
          else nodes (info (.flLock I)).blockList)) :=
    Finset.sum_congr rfl fun I _ => listPlaces_eq I _
  have reorder : ∀ user own lists pages : Places n,
      user + (own + lists) + pages = own + (lists + pages) + user := by
    intro user own lists pages
    abel
  rw [← sound.total, sum_places]
  calc _ = (∑ t, (w.thread t).own.places) +
          ((∑ I, (discipline c).guarded (.flLock I) (info (.flLock I))) +
            ∑ I, (discipline c).guarded (.mmLock I) (info (.mmLock I))) + w.user := by
        rw [lists_]
        exact reorder _ _ _ _
    _ = (∑ t, (w.thread t).own.places) +
          ((∑ t, (discipline c).stock (w.thread t).held) + (discipline c).stock w.shared) +
            w.user := by
        rw [guarded, sum_locks]
    _ = _ := by
        unfold Discipline.worth
        rw [Finset.sum_add_distrib, add_assoc, add_assoc, add_assoc]
        rfl

/-- The blocks of a region, each once. -/
theorem unallocated_nodup (I : Fin n) (first : Nat) : (unallocated c I first).Nodup := by
  unfold unallocated
  rw [Multiset.coe_nodup]
  refine List.Nodup.map_on ?_ (List.nodup_range' ..)
  intro j jIn k kIn same
  rw [List.mem_range'_1] at jIn kIn
  exact c.block_inj (by omega) (by omega) same

theorem Resources.total_at (resources : Resources c w lists pages) (I : Fin n) :
    (∑ p, w.at lists p I) + unallocated c I ((pages I).allocatedUser / c.getSizeByClassId I +
      (pages I).numberOfBlocks) = unallocated c I 0 := by
  have total := congrFun resources.total I
  have pages_ : (∑ J, (pages J).places c J) I =
      unallocated c I ((pages I).allocatedUser / c.getSizeByClassId I + (pages I).numberOfBlocks) := by
    have all := sum_single (fun J =>
      unallocated c J ((pages J).allocatedUser / c.getSizeByClassId J + (pages J).numberOfBlocks))
    exact congrFun all I
  rw [← pages_]
  rw [Pi.add_apply, Finset.sum_apply] at total
  exact total

end Total

/-- A block that a `TransferBatch` or a `BatchGroup` lives in. -/
def Caches.LiveNode (w : Caches n τ) (lists : Fin n → List GroupNode) (x : Nat) : Prop :=
  (∃ I, x ∈ nodes (lists I)) ∨ ∃ t, x ∈ nodes (w.thread t).own.groupsToRelease

/-- No block is lost or in two places. -/
structure Caches.Conserved (c : BlockConfig n) (w : Caches n τ) (lists : Fin n → List GroupNode)
    (pages : Fin n → MemMapInfo) : Prop where
  list : ∀ I, ∃ populating, w.Has (.flLock I) ⟨lists I, populating⟩
  page : ∀ I, w.Has (.mmLock I) (pages I)
  one_place : ∀ I k, k * c.getSizeByClassId I < (pages I).allocatedUser →
    ∃! p, c.block I k ∈ w.at lists p I
  nodup : ∀ p I, (w.at lists p I).Nodup
  apart : ∀ p q I x, x ∈ w.at lists p I → x ∈ w.at lists q I → p = q
  blocks : ∀ p I x, x ∈ w.at lists p I → ∃ k, k < c.limit I ∧ x = c.block I k
  capacity : ∀ t I, ((w.thread t).own.chunks I).length ≤ 2 * c.maxNumCachedHint
  self_contained : nodes (lists 0) ≤ recorded (lists 0) + lone (lists 0)
  live : ∀ x, w.LiveNode lists x → x ∉ w.user 0 ∧
    ∀ t, x ∉ (w.thread t).own.chunks 0 ∧ x ∉ (w.thread t).own.hand 0
  at_rest : ∀ t, w.task t = none → AtRest 0 (w.thread t)

section Conserved

variable {c : BlockConfig n} [Fintype τ] {w : Caches n τ} {lists : Fin n → List GroupNode}
  {pages : Fin n → MemMapInfo}

/-- A live node is at the place of a list or of released groups. -/
theorem Resources.live_place (resources : Resources c w lists pages) {x : Nat}
    (live : w.LiveNode lists x) : ∃ p, x ∈ w.at lists p 0 ∧
      p ≠ .user ∧ ∀ t, p ≠ .slots t ∧ p ≠ .hand t := by
  rcases live with ⟨I, member⟩ | ⟨t, member⟩
  · by_cases zero : I = 0
    · subst zero
      have recorded_ := Multiset.mem_of_le resources.batchClass.nodes_le member
      rcases Multiset.mem_add.mp recorded_ with there | there
      · exact ⟨.freeList 0, by simpa [Caches.at] using there, nofun, fun t => ⟨nofun, nofun⟩⟩
      · exact ⟨.nodes 0, by simpa [Caches.at] using there, nofun, fun t => ⟨nofun, nofun⟩⟩
    · exact ⟨.nodes I, by simpa [Caches.at, zero] using member, nofun, fun t => ⟨nofun, nofun⟩⟩
  · exact ⟨.releasedNodes t, by simpa [Caches.at] using member, nofun, fun t => ⟨nofun, nofun⟩⟩

theorem Caches.Sound.conserved (sound : w.Sound c) (resources : Resources c w lists pages) :
    w.Conserved c lists pages := by
  have total := resources.total_at
  have le : ∀ I, ∑ p, w.at lists p I ≤ unallocated c I 0 := by
    intro I
    rw [← total I]
    exact Multiset.le_add_right _ _
  have nodup : ∀ I, (∑ p, w.at lists p I).Nodup :=
    fun I => Multiset.nodup_of_le (le I) (unallocated_nodup I 0)
  have part : ∀ p I, w.at lists p I ≤ ∑ q, w.at lists q I := fun p I =>
    Finset.single_le_sum_of_canonicallyOrdered (f := fun q => w.at lists q I) (Finset.mem_univ p)
  have apart : ∀ p q I x, x ∈ w.at lists p I → x ∈ w.at lists q I → p = q :=
    fun p q I x there also => eq_of_nodup (nodup I) there also
  refine ⟨resources.list, resources.page, ?_, fun p I => Multiset.nodup_of_le (part p I) (nodup I),
    apart, ?_, ?_, resources.batchClass.nodes_le, ?_, ?_⟩
  · intro I k below
    obtain ⟨whole, room, inside, -⟩ := resources.intact I
    have positive := c.positive I
    have number : k < (pages I).allocatedUser / c.getSizeByClassId I := by
      obtain ⟨q, allocated⟩ := whole
      rw [allocated, Nat.mul_comm] at below
      rw [allocated, Nat.mul_div_cancel_left _ positive]
      exact Nat.lt_of_mul_lt_mul_left below
    have inRegion : (pages I).allocatedUser / c.getSizeByClassId I ≤ c.limit I := by
      apply limit_le
      have back := Nat.div_mul_le_self (pages I).allocatedUser (c.getSizeByClassId I)
      omega
    have all : c.block I k ∈ unallocated c I 0 :=
      mem_unallocated.mpr ⟨k, Nat.zero_le k, by omega, rfl⟩
    have above : c.block I k ∉ unallocated c I ((pages I).allocatedUser / c.getSizeByClassId I +
        (pages I).numberOfBlocks) := by
      intro member
      obtain ⟨j, le, lt, same⟩ := mem_unallocated.mp member
      have equal := c.block_inj (by omega) lt same
      omega
    apply existsUnique_of_count
    have count := congrArg (Multiset.count (c.block I k)) (total I)
    rw [Multiset.count_add, Multiset.count_eq_zero_of_notMem above, add_zero,
      Multiset.count_eq_one_of_mem (unallocated_nodup I 0) all] at count
    exact count
  · intro p I x there
    obtain ⟨k, -, lt, same⟩ :=
      mem_unallocated.mp (Multiset.mem_of_le (le I) (Multiset.mem_of_le (part p I) there))
    exact ⟨k, lt, same⟩
  · intro t I
    have bound := (sound.good t).own.chunks_le I
    have cached := c.getMaxCached_le (c.getSizeByClassId I)
    rw [c.maxCount_eq] at bound
    omega
  · intro x live
    obtain ⟨p, there, notUser, notOwn⟩ := resources.live_place live
    refine ⟨fun also => notUser (apart p .user 0 x there also), fun t => ⟨?_, ?_⟩⟩
    · exact fun also => (notOwn t).1 (apart p (.slots t) 0 x there also)
    · exact fun also => (notOwn t).2 (apart p (.hand t) 0 x there also)
  · intro t idle
    have busy := sound.busy t
    rw [idle] at busy
    exact busy

end Conserved

section Theorem

variable (c : BlockConfig n) [Fintype τ] [DecidableEq τ]

/-- In every state of every run of any number of caches every block below `AllocatedUser` is in exactly
one place, and no node of a free list is handed out. -/
theorem primary_blocks_conserved {w : Caches n τ} (reached : (caches c τ).Reachable w) :
    ∃ lists pages, w.Conserved c lists pages := by
  have sound := reachable_sound reached
  obtain ⟨lists, pages, resources⟩ := sound.resources
  exact ⟨lists, pages, sound.conserved resources⟩

end Theorem

/-- Blocks of 128 bytes in the batch class, and of 32 bytes. -/
def twoClasses : BlockConfig 2 where
  page := PageSize.small
  compactPtrScale := 4
  groupSizeLog := 18
  scale_le := by decide
  page_le := by decide
  regionSizeLog := 28
  compactPtrBits := 32
  contiguousRegions := false
  conditionVariable := true
  mapSizeIncrement := 2 ^ 18
  maxNumBatches := 8
  maxNumCachedHint := 13
  maxBytesCachedLog := 13
  getSizeByClassId I := if I = 0 then 128 else 32
  regionBeg I := 2 ^ 32 + I.val * 2 ^ 28
  regionBase _ := 0
  group_le := by decide
  pointers := by decide
  positive := by decide
  scaled := by decide
  increment := by decide
  mapFits := by decide
  countFits := by decide
  batches_pos := by decide
  hint_ge := by decide
  hint_lt := by decide
  batch_le := by decide

def freshCaches : Caches 2 (Fin 2) where
  shared
    | .flLock _ => some ⟨[], false⟩
    | .mmLock _ => some ⟨false, 0, 0, false, 0⟩
  thread _ := ⟨⟨fun _ => [], [], 0, 0, []⟩, fun _ => none⟩
  task _ := none
  user := 0

theorem freshCaches_initial : Initial freshCaches where
  lists _ := rfl
  pages _ := ⟨false, rfl⟩
  task _ := rfl
  thread _ := ⟨rfl, rfl, rfl⟩
  chunks _ _ := rfl
  user := rfl

/-- The same with two blocks in a batch, and two at a time. -/
def fewBlocks : BlockConfig 2 := { twoClasses with
  maxNumBatches := 1
  maxNumCachedHint := 2
  mapFits := by decide
  countFits := by decide
  batches_pos := by decide
  hint_ge := by decide
  hint_lt := by decide }

/-- Every mapping succeeds, nothing is shuffled, and all groups are released. -/
def plain : Outside where
  succeeds := true
  shuffle := id
  shuffle_perm := List.Perm.refl
  releases _ := true
  rounds := 1

def whole (t : Fin 2) (request : Request 2) : List (Move 2 (Fin 2)) :=
  [.request t request, .turns t plain 100, .finish t]

/-- A page release up to where the groups are out of the list. -/
def releasing (t : Fin 2) : List (Move 2 (Fin 2)) :=
  [.request t (.releaseToOS 1 (by decide)), .turns t plain 5]

/-- The group of the first cache's block is out of the list, and the second cache has made another. -/
def twoGroups : List (Move 2 (Fin 2)) :=
  whole 0 (.allocate 1) ++ whole 1 (.allocate 1) ++ whole 0 .drain ++ releasing 0 ++ whole 1 .drain

/-- The group of the first cache's block is out of the list for a page release, while the second one
takes back blocks of both until its slots are full, drains half of them and allocates again. -/
def mixedMoves : List (Move 2 (Fin 2)) :=
  whole 0 (.allocate 1) ++ whole 0 (.allocate 1) ++ whole 0 (.allocate 1) ++ whole 1 (.allocate 1) ++
    whole 0 .drain ++ releasing 0 ++ whole 1 (.deallocate 1 2) ++ whole 1 (.deallocate 1 6) ++
    whole 1 (.deallocate 1 10) ++ whole 1 (.deallocate 1 0) ++ whole 1 (.allocate 1)

/-- Six blocks, and each is somewhere else: with the user, in a slot, in the list, or in the group that
is being released. -/
theorem primary_blocks_conserved_mixed : ∃ w : Caches 2 (Fin 2),
    w.user 1 = {0} ∧ (w.thread 1).own.chunks 1 = [6, 10] ∧
      w.shared (.flLock 1) = some ⟨[⟨24, 0, [⟨⟨[8, 2]⟩, 16⟩], 2⟩], false⟩ ∧
      (w.thread 0).own.groupsToRelease = [⟨8, 0, [⟨⟨[4]⟩, 0⟩], 2⟩] ∧
      ∃ lists pages, w.Conserved fewBlocks lists pages := by
  have reached := Caches.reachable_play mixedMoves
    (.init freshCaches_initial : (caches fewBlocks (Fin 2)).Reachable freshCaches)
  exact ⟨_, by decide +kernel, by decide +kernel, by decide +kernel, by decide +kernel,
    primary_blocks_conserved fewBlocks reached⟩

end Scudo.Primary.Allocator64
