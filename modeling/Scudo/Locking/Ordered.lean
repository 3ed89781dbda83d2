import Scudo.Locking.Allocator

/-!
Each operation keeps to the order of the locks. What a thread holds when it calls a part of the
allocator is at most the locks of the registry; `disable` takes all locks that it takes in order, and
`enable` gives them back.
-/

namespace Scudo.Locking
open Scudo.Lib SharedArena Primary Allocator64 AllocatorLock

variable {n t : Nat} [NeZero n] [NeZero t] (c : Config n t) {held : List (AllocatorLock n t)}

omit [NeZero n] [NeZero t] in
theorem below_of_stats {lock : AllocatorLock n t} (below : Below held stats) (above : 2 + t < lock.rank) :
    Below held lock := below.mono above

omit [NeZero n] [NeZero t] in
theorem below_mmLock (below : Below held stats) (I : Fin n) : Below held (mmLock I) :=
  below_of_stats below (by simp only [rank]; omega)

omit [NeZero n] [NeZero t] in
theorem report_keeps : (report : LockPlan n t Unit).Keeps held := by
  refine Plan.Keeps.bind Plan.Keeps.choose fun failed => ?_
  cases failed with
  | true => exact trivial
  | false => exact Plan.Keeps.pure ()

omit [NeZero t] in
theorem chunkClassId_keeps : (chunkClassId c : LockPlan n t _).Keeps held := fun _ => rfl

section Cache

omit [NeZero t] in
theorem cacheAllocate_keeps (below : Below held stats) (I : Fin n) :
    (cacheAllocate c I : LockPlan n t _).Keeps held :=
  allocate_keeps c.primary (fun _ => batchClass_served c.primary) (below_mmLock below I)

omit [NeZero t] in
theorem cacheDeallocate_keeps (below : Below held stats) (I : Fin n) :
    (cacheDeallocate c I : LockPlan n t _).Keeps held :=
  deallocate_keeps c.primary (fun _ => batchClass_served c.primary) (below_mmLock below I) 0

omit [NeZero n] [NeZero t] in
theorem link_keeps (below : Below held stats) : (link : LockPlan n t Unit).Keeps held :=
  Plan.Keeps.withLock below (Plan.Keeps.pure ())

omit [NeZero t] in
theorem cacheDestroy_keeps (below : Below held stats) : (cacheDestroy c : LockPlan n t Unit).Keeps held :=
  Plan.Keeps.bind (drain_keeps c.primary (below_mmLock below)) fun _ => link_keeps below

end Cache

namespace GlobalQuarantine

omit [NeZero t] in
theorem enqueue_keeps (below : Below held stats) : (enqueue c : LockPlan n t Unit).Keeps held := by
  refine Plan.Keeps.bind Plan.Keeps.choose fun full => ?_
  split_ifs
  · refine Plan.Keeps.bind (cacheAllocate_keeps c below c.quarantineClassId) fun block => ?_
    cases block with
    | none => exact trivial
    | some block => exact Plan.Keeps.pure ()
  · exact Plan.Keeps.pure ()

omit [NeZero t] in
theorem doRecycle_keeps (below : Below held stats) : (doRecycle c : LockPlan n t Unit).Keeps held := by
  have chunk : (recycleChunk c : LockPlan n t Unit).Keeps held := by
    refine Plan.Keeps.bind report_keeps fun _ => ?_
    refine Plan.Keeps.bind (chunkClassId_keeps c) fun I => ?_
    exact Plan.Keeps.bind (cacheDeallocate_keeps c below I.1) fun _ => Plan.Keeps.pure ()
  refine Plan.Keeps.loop ?_
  refine Plan.Keeps.bind (Plan.Keeps.loop chunk) fun _ => ?_
  refine Plan.Keeps.bind report_keeps fun _ => ?_
  exact Plan.Keeps.bind (cacheDeallocate_keeps c below _) fun _ => Plan.Keeps.pure ()

omit [NeZero t] in
/-- `recycle` gives `RecycleMutex` back. -/
theorem recycle_ordered (below : Below held stats) :
    (recycle c : LockPlan n t Unit).Ordered (recycleMutex :: held) fun _ after => after = held := by
  have above : Below (recycleMutex :: held) cacheMutex := by
    refine (below_of_stats below ?_).cons ?_
    · simp only [rank]
      omega
    · rw [lt_iff]
      simp only [rank]
      omega
  refine Plan.Keeps.bind (Plan.Keeps.withLock above (Plan.Keeps.pure ())) fun _ => ?_
  exact Plan.Ordered.unlock_bind (doRecycle_keeps c below)

omit [NeZero t] in
theorem drain_keeps (below : Below held stats) : (drain c : LockPlan n t Unit).Keeps held := by
  have cache : Below held cacheMutex := below_of_stats below (by simp only [rank]; omega)
  have recycles : Below held recycleMutex := below_of_stats below (by simp only [rank]; omega)
  refine Plan.Keeps.bind (Plan.Keeps.withLock cache Plan.Keeps.choose) fun needRecycle => ?_
  split_ifs
  · refine Plan.Ordered.attempt_bind recycles ?_ ?_
    · exact recycle_ordered c below
    · exact Plan.Keeps.pure ()
  · exact Plan.Keeps.pure ()

omit [NeZero t] in
theorem drainAndRecycle_keeps (below : Below held stats) :
    (drainAndRecycle c : LockPlan n t Unit).Keeps held := by
  have cache : Below held cacheMutex := below_of_stats below (by simp only [rank]; omega)
  have recycles : Below held recycleMutex := below_of_stats below (by simp only [rank]; omega)
  refine Plan.Keeps.bind (Plan.Keeps.withLock cache (Plan.Keeps.pure ())) fun _ => ?_
  exact Plan.Ordered.lock_bind recycles (recycle_ordered c below)

omit [NeZero t] in
theorem put_keeps (below : Below held stats) : (put c : LockPlan n t Unit).Keeps held := by
  refine Plan.Keeps.bind (enqueue_keeps c below) fun _ => ?_
  refine Plan.Keeps.bind Plan.Keeps.choose fun large => ?_
  split_ifs
  · exact drain_keeps c below
  · exact Plan.Keeps.pure ()

end GlobalQuarantine

namespace MapAllocator

omit [NeZero n] [NeZero t] in
theorem insertInUse_keeps (below : Below held stats) : (insertInUse : LockPlan n t Unit).Keeps held :=
  Plan.Keeps.withLock (below_of_stats below (by simp only [rank]; omega)) (Plan.Keeps.pure ())

omit [NeZero n] [NeZero t] in
theorem below_secondaryCache (below : Below held stats) : Below held secondaryCacheMutex :=
  below_of_stats below (by simp only [rank]; omega)

omit [NeZero n] [NeZero t] in
theorem releaseOlderThan_keeps (below : Below held stats) :
    (MapAllocatorCache.releaseOlderThan : LockPlan n t Unit).Keeps held :=
  Plan.Keeps.withLock (below_secondaryCache below) (Plan.Keeps.pure ())

omit [NeZero n] [NeZero t] in
theorem store_keeps (below : Below held stats) : (MapAllocatorCache.store : LockPlan n t Unit).Keeps held := by
  refine Plan.Keeps.bind (Plan.Keeps.withLock (below_secondaryCache below) Plan.Keeps.choose)
    fun stored => ?_
  split_ifs
  · exact Plan.Keeps.pure ()
  · refine Plan.Keeps.bind Plan.Keeps.choose fun releases => ?_
    split_ifs
    · exact releaseOlderThan_keeps below
    · exact Plan.Keeps.pure ()

omit [NeZero n] [NeZero t] in
/-- The arenas are locked by threads that hold nothing else. -/
theorem arenas_keep {ops : List (LockOp CoreId)} (disciplined : Disciplined [] ops) :
    (Plan.ofOps arena ops : LockPlan n t Unit).Keeps [] := by
  have increase : StrictMono (arena : CoreId → AllocatorLock n t) := by
    intro a b less
    have order : a.val < b.val := less
    rw [lt_iff]
    simp only [rank]
    omega
  have injective : Function.Injective (arena : CoreId → AllocatorLock n t) := by
    rintro a b ⟨⟩
    rfl
  exact Plan.Ordered.ofOps increase injective disciplined

omit [NeZero n] [NeZero t] in
theorem allocateFromCacheOrMap_keeps (below : Below held stats) :
    (allocateFromCacheOrMap : LockPlan n t Bool).Keeps held := by
  have inserts := insertInUse_keeps below
  have fromMap : (allocateFromMap : LockPlan n t Bool).Keeps held := by
    refine Plan.Keeps.bind Plan.Keeps.choose fun mapped => ?_
    split_ifs
    · exact Plan.Keeps.bind inserts fun _ => Plan.Keeps.pure true
    · exact Plan.Keeps.pure false
  have fromCache : (tryAllocateFromCache : LockPlan n t Bool).Keeps held := by
    refine Plan.Keeps.bind (Plan.Keeps.withLock (below_secondaryCache below) Plan.Keeps.choose)
      fun found => ?_
    split_ifs
    · exact Plan.Keeps.bind inserts fun _ => Plan.Keeps.pure true
    · exact Plan.Keeps.pure false
  refine Plan.Keeps.bind Plan.Keeps.choose fun canCache => ?_
  split_ifs
  · refine Plan.Keeps.bind fromCache fun found => ?_
    split_ifs
    · exact Plan.Keeps.pure true
    · exact fromMap
  · exact fromMap

omit [NeZero n] [NeZero t] in
theorem allocate_keeps : (allocate : LockPlan n t Bool).Keeps [] := by
  have fromArena : (tryAllocateFromArena : LockPlan n t Bool).Keeps [] := by
    refine Plan.Keeps.bind Plan.Keeps.choose fun ready => ?_
    split_ifs
    · refine Plan.Keeps.bind Plan.Keeps.choose fun core => ?_
      refine Plan.Keeps.bind Plan.Keeps.choose fun branches => ?_
      refine Plan.Keeps.bind (arenas_keep (retrieveLocks_disciplined core branches)) fun _ => ?_
      split_ifs
      · exact Plan.Keeps.bind (insertInUse_keeps Below.nil) fun _ => Plan.Keeps.pure true
      · exact Plan.Keeps.pure false
    · exact Plan.Keeps.pure false
  refine Plan.Keeps.bind Plan.Keeps.choose fun shouldUseArena => ?_
  split_ifs
  · refine Plan.Keeps.bind fromArena fun found => ?_
    split_ifs
    · exact Plan.Keeps.pure true
    · exact allocateFromCacheOrMap_keeps Below.nil
  · exact allocateFromCacheOrMap_keeps Below.nil

omit [NeZero n] [NeZero t] in
theorem deallocate_keeps : (deallocate : LockPlan n t Unit).Keeps [] := by
  refine Plan.Keeps.bind (Plan.Keeps.withLock Below.nil (Plan.Keeps.pure ())) fun _ => ?_
  refine Plan.Keeps.bind Plan.Keeps.choose fun isArenaAddr => ?_
  split_ifs
  · refine Plan.Keeps.bind Plan.Keeps.choose fun returns => ?_
    split_ifs
    · refine Plan.Keeps.bind Plan.Keeps.choose fun core => ?_
      refine Plan.Keeps.bind Plan.Keeps.choose fun logArena => ?_
      refine Plan.Keeps.bind Plan.Keeps.choose fun branches => ?_
      exact arenas_keep (storeLocks_disciplined core logArena branches)
    · exact Plan.Keeps.pure ()
  · refine Plan.Keeps.bind Plan.Keeps.choose fun canCache => ?_
    split_ifs
    · exact store_keeps Below.nil
    · exact Plan.Keeps.pure ()

end MapAllocator

omit [NeZero t] in
theorem commitBack_keeps (below : Below held stats) : (commitBack c : LockPlan n t Unit).Keeps held :=
  Plan.Keeps.bind (GlobalQuarantine.drain_keeps c below) fun _ => cacheDestroy_keeps c below

omit [NeZero t] in
theorem drainCache_keeps (below : Below held stats) : (drainCache c : LockPlan n t Unit).Keeps held :=
  Plan.Keeps.bind (GlobalQuarantine.drainAndRecycle_keeps c below) fun _ =>
    Scudo.Locking.drain_keeps c.primary (below_mmLock below)

namespace TSDRegistry

omit [NeZero n] [NeZero t] in
/-- The locks of the registry are below the others, and its mutexes below those of the TSDs. -/
theorem registryMutex_lt : (registryMutex : AllocatorLock n t) < mutexTSDs ∧
    (registryMutex : AllocatorLock n t) < stats := by
  rw [lt_iff, lt_iff]
  simp only [rank]
  omega

omit [NeZero n] [NeZero t] in
theorem tsd_lt_stats (index : Fin t) : (tsd index : AllocatorLock n t) < stats := by
  have bound := index.isLt
  rw [lt_iff]
  simp only [rank]
  omega

omit [NeZero n] [NeZero t] in
theorem mutexTSDs_lt (index : Fin t) : (mutexTSDs : AllocatorLock n t) < tsd index ∧
    (mutexTSDs : AllocatorLock n t) < stats := by
  rw [lt_iff, lt_iff]
  simp only [rank]
  omega

omit [NeZero t] in
theorem initOnceMaybe_keeps : (initOnceMaybe c : LockPlan n t Unit).Keeps [] := by
  have linked : (link : LockPlan n t Unit).Keeps [registryMutex] :=
    link_keeps (Below.nil.push registryMutex_lt.2)
  refine Plan.Keeps.withLock Below.nil ?_
  refine Plan.Keeps.bind Plan.Keeps.choose fun initialized => ?_
  split_ifs
  · exact Plan.Keeps.pure ()
  · refine Plan.Keeps.bind linked fun _ => ?_
    cases c.registry with
    | exclusive => exact linked
    | shared =>
      refine Plan.Keeps.bind (Plan.Keeps.forEach fun _ _ => linked) fun _ => ?_
      exact Plan.Keeps.withLock (Below.nil.push registryMutex_lt.1) (Plan.Keeps.pure ())

omit [NeZero t] in
theorem initThreadMaybe_keeps (minimalInit : Bool) :
    (initThreadMaybe c minimalInit : LockPlan n t Unit).Keeps [] := by
  refine Plan.Keeps.bind Plan.Keeps.choose fun initialized => ?_
  split_ifs
  · exact Plan.Keeps.pure ()
  · refine Plan.Keeps.bind (initOnceMaybe_keeps c) fun _ => ?_
    cases c.registry with
    | exclusive =>
      cases minimalInit with
      | true => exact Plan.Keeps.pure ()
      | false => exact link_keeps Below.nil
    | shared => exact Plan.Keeps.pure ()

/-- What is held once a TSD has been found. -/
def Found (found : Option (Fin t)) (after : List (AllocatorLock n t)) : Prop :=
  after = (found.map tsd).toList

omit [NeZero n] [NeZero t] in
theorem lockTSD_ordered (index : Fin t) : (lockTSD index : LockPlan n t _).Ordered [] Found :=
  Plan.Ordered.lock_bind Below.nil rfl

omit [NeZero n] in
theorem tryTSDs_ordered (tries : Nat) : (tryTSDs tries : LockPlan n t _).Ordered [] Found := by
  induction tries with
  | zero => rfl
  | succ tries ih => exact fun index => Plan.Ordered.attempt_bind Below.nil rfl ih

omit [NeZero n] in
theorem getTSDAndLockSlow_ordered (currentTSD : Fin t) :
    (getTSDAndLockSlow currentTSD : LockPlan n t _).Ordered [] Found := by
  refine Plan.Keeps.bind (Plan.Keeps.withLock Below.nil (Plan.Keeps.pure ())) fun _ => ?_
  refine Plan.Keeps.bind Plan.Keeps.choose fun several => ?_
  split_ifs
  · refine Plan.Ordered.bind (tryTSDs_ordered 4) ?_
    rintro found _ rfl
    cases found with
    | some index => rfl
    | none =>
      refine Plan.Keeps.bind Plan.Keeps.choose fun candidate => ?_
      cases candidate with
      | some candidateTSD => exact lockTSD_ordered candidateTSD
      | none => exact lockTSD_ordered currentTSD
  · exact lockTSD_ordered currentTSD

theorem getTSDAndLock_ordered : (getTSDAndLock c : LockPlan n t _).Ordered [] Found := by
  unfold getTSDAndLock
  cases c.registry with
  | exclusive =>
    refine Plan.Keeps.bind Plan.Keeps.choose fun own => ?_
    split_ifs
    · rfl
    · exact lockTSD_ordered 0
  | shared =>
    refine Plan.Keeps.bind Plan.Keeps.choose fun currentTSD => ?_
    refine Plan.Ordered.attempt_bind Below.nil rfl ?_
    rw [if_neg Bool.false_ne_true]
    split_ifs
    · exact lockTSD_ordered currentTSD
    · exact getTSDAndLockSlow_ordered currentTSD

/-- What is done with a TSD may take any lock above those of the registry. -/
theorem scopedTSD_keeps {β : Type} {body : LockPlan n t β}
    (each : ∀ held : List (AllocatorLock n t), Below held stats → body.Keeps held) :
    (scopedTSD c body).Keeps [] := by
  refine Plan.Ordered.bind (getTSDAndLock_ordered c) ?_
  rintro found _ rfl
  cases found with
  | none => exact each [] Below.nil
  | some index =>
    have holds : ∀ lock ∈ [tsd index], lock ∈ [(tsd index : AllocatorLock n t)] := fun _ inside => inside
    refine Plan.Keeps.bind (Plan.Keeps.assertHeld holds) fun _ => ?_
    refine Plan.Keeps.bind (each [tsd index] (Below.nil.push (tsd_lt_stats index))) fun result => ?_
    exact Plan.Ordered.unlock_bind rfl

omit [NeZero n] [NeZero t] in
theorem eachTSD_keeps {body : LockPlan n t Unit}
    (each : ∀ held : List (AllocatorLock n t), Below held stats → body.Keeps held) :
    (eachTSD body).Keeps [] := by
  refine Plan.Keeps.withLock Below.nil ?_
  refine Plan.Keeps.bind Plan.Keeps.choose fun numberOfTSDs => ?_
  refine Plan.Keeps.forEach fun index _ => ?_
  refine Plan.Keeps.withLock (Below.nil.push (mutexTSDs_lt index).1) (each _ ?_)
  exact (Below.nil.push (mutexTSDs_lt index).2).push (tsd_lt_stats index)

theorem drainCaches_keeps : (drainCaches c : LockPlan n t Unit).Keeps [] := by
  unfold drainCaches
  cases c.registry with
  | exclusive =>
    refine Plan.Keeps.bind (drainCache_keeps c Below.nil) fun _ => ?_
    exact Plan.Keeps.withLock Below.nil (drainCache_keeps c (Below.nil.push (tsd_lt_stats 0)))
  | shared => exact eachTSD_keeps fun held below => drainCache_keeps c below

omit [NeZero t] in
theorem getStats_keeps : (TSDRegistry.getStats c : LockPlan n t Unit).Keeps [] := by
  unfold TSDRegistry.getStats
  cases c.registry with
  | exclusive => exact Plan.Keeps.pure ()
  | shared => exact eachTSD_keeps fun held below => Plan.Keeps.pure ()

end TSDRegistry

namespace Allocator
open TSDRegistry

omit [NeZero n] [NeZero t] in
theorem storeStackMaybe_keeps : (storeStackMaybe : LockPlan n t Unit).Keeps [] := by
  refine Plan.Keeps.bind Plan.Keeps.choose fun tracks => ?_
  split_ifs
  · refine Plan.Keeps.bind Plan.Keeps.choose fun there => ?_
    split_ifs
    · exact Plan.Keeps.pure ()
    · exact Plan.Keeps.withLock Below.nil (Plan.Keeps.pure ())
  · exact Plan.Keeps.pure ()

omit [NeZero t] in
theorem allocateUpwards_keeps (below : Below held stats) (order : List (Fin n)) :
    (allocateUpwards c order : LockPlan n t Bool).Keeps held := by
  induction order with
  | nil => exact Plan.Keeps.pure false
  | cons I rest ih =>
    refine Plan.Keeps.bind (cacheAllocate_keeps c below I) fun block => ?_
    split_ifs
    · exact Plan.Keeps.pure true
    · exact ih

theorem allocateBlock_keeps : (allocateBlock c : LockPlan n t Bool).Keeps [] := by
  refine Plan.Keeps.bind Plan.Keeps.choose fun canAllocate => ?_
  split_ifs
  · refine Plan.Keeps.bind (chunkClassId_keeps c) fun first => ?_
    refine Plan.Keeps.bind (scopedTSD_keeps c fun held below => allocateUpwards_keeps c below _)
      fun found => ?_
    split_ifs
    · exact Plan.Keeps.pure true
    · exact MapAllocator.allocate_keeps
  · exact MapAllocator.allocate_keeps

omit [NeZero t] in
theorem getStats_keeps : (Allocator.getStats c : LockPlan n t Unit).Keeps [] := by
  have cache : Below [secondaryMutex] (secondaryCacheMutex : AllocatorLock n t) := by
    refine Below.nil.push ?_
    rw [lt_iff]
    simp only [rank]
    omega
  refine Plan.Keeps.bind (Regions.getStats_keeps fun I => Below.nil) fun _ => ?_
  refine Plan.Keeps.bind (Plan.Keeps.withLock Below.nil (Plan.Keeps.withLock cache (Plan.Keeps.pure ())))
    fun _ => ?_
  refine Plan.Keeps.bind (Plan.Keeps.withLock Below.nil (Plan.Keeps.pure ())) fun _ => ?_
  exact TSDRegistry.getStats_keeps c

theorem allocate_keeps : (Allocator.allocate c : LockPlan n t Bool).Keeps [] := by
  refine Plan.Keeps.bind (initThreadMaybe_keeps c false) fun _ => ?_
  refine Plan.Keeps.bind Plan.Keeps.choose fun rejected => ?_
  split_ifs
  · exact Plan.Keeps.bind report_keeps fun _ => Plan.Keeps.pure false
  · refine Plan.Keeps.bind (allocateBlock_keeps c) fun found => ?_
    split_ifs
    · exact Plan.Keeps.bind storeStackMaybe_keeps fun _ => Plan.Keeps.pure true
    · refine Plan.Keeps.bind Plan.Keeps.choose fun mayReturnNull => ?_
      split_ifs
      · exact Plan.Keeps.pure false
      · exact Plan.Keeps.bind (getStats_keeps c) fun _ => trivial

theorem quarantineOrDeallocateChunk_keeps :
    (quarantineOrDeallocateChunk c : LockPlan n t Unit).Keeps [] := by
  refine Plan.Keeps.bind storeStackMaybe_keeps fun _ => ?_
  refine Plan.Keeps.bind Plan.Keeps.choose fun bypassQuarantine => ?_
  split_ifs
  · refine Plan.Keeps.bind Plan.Keeps.choose fun inPrimary => ?_
    split_ifs
    · refine Plan.Keeps.bind (chunkClassId_keeps c) fun I => ?_
      refine Plan.Keeps.bind (scopedTSD_keeps c fun held below => cacheDeallocate_keeps c below I.1)
        fun cacheDrained => ?_
      split_ifs
      · exact tryReleaseToOS_keeps c.primary Below.nil I.2
      · exact Plan.Keeps.pure ()
    · exact MapAllocator.deallocate_keeps
  · exact scopedTSD_keeps c fun held below => GlobalQuarantine.put_keeps c below

theorem deallocate_keeps : (Allocator.deallocate c : LockPlan n t Unit).Keeps [] := by
  refine Plan.Keeps.bind Plan.Keeps.choose fun null => ?_
  split_ifs
  · exact Plan.Keeps.pure ()
  · refine Plan.Keeps.bind (initThreadMaybe_keeps c true) fun _ => ?_
    exact Plan.Keeps.bind report_keeps fun _ => quarantineOrDeallocateChunk_keeps c

theorem reallocate_keeps : (reallocate c : LockPlan n t Unit).Keeps [] := by
  refine Plan.Keeps.bind (initThreadMaybe_keeps c false) fun _ => ?_
  refine Plan.Keeps.bind report_keeps fun _ => ?_
  refine Plan.Keeps.bind Plan.Keeps.choose fun inPlace => ?_
  split_ifs
  · exact storeStackMaybe_keeps
  · refine Plan.Keeps.bind (allocate_keeps c) fun moved => ?_
    split_ifs
    · exact quarantineOrDeallocateChunk_keeps c
    · exact Plan.Keeps.pure ()

theorem releaseToOS_keeps (forceAll : Bool) : (releaseToOS c forceAll : LockPlan n t Unit).Keeps [] := by
  have rest : (do
      Regions.releaseToOS c.primary
      MapAllocator.releaseToOS : LockPlan n t Unit).Keeps [] := by
    refine Plan.Keeps.bind (Regions.releaseToOS_keeps c.primary fun I => Below.nil) fun _ => ?_
    exact MapAllocator.releaseOlderThan_keeps Below.nil
  refine Plan.Keeps.bind (initThreadMaybe_keeps c false) fun _ => ?_
  cases forceAll with
  | true => exact Plan.Keeps.bind (drainCaches_keeps c) fun _ => rest
  | false => exact rest

omit [NeZero n] in
theorem disabledTSDs_increase (registry : RegistryKind) :
    ((disabledTSDs registry).map (tsd : Fin t → AllocatorLock n t)).Pairwise (· < ·) := by
  cases registry with
  | exclusive => exact List.pairwise_singleton ..
  | shared =>
    refine List.Pairwise.map _ ?_ (List.pairwise_lt_finRange t)
    intro a b less
    have order : a.val < b.val := less
    rw [lt_iff]
    simp only [rank]
    omega

theorem lockRegistry_ordered : (TSDRegistry.disable c : LockPlan n t Unit).Ordered [] fun _ after =>
    after = registryLocks c := by
  refine Plan.Ordered.lock_bind Below.nil ?_
  refine Plan.Ordered.lockAll (disabledTSDs_increase c.registry) fun index _ => Below.nil.push ?_
  rw [lt_iff]
  simp only [rank]
  omega

omit [NeZero n] in
theorem below_registry [NeZero n] (c : Config n t) :
    Below (registryLocks c) (stats : AllocatorLock n t) := by
  intro other inside
  rcases List.mem_append.mp inside with inside | inside
  · obtain ⟨index, _, rfl⟩ := List.mem_map.mp (List.mem_reverse.mp inside)
    exact tsd_lt_stats index
  · rw [List.mem_singleton.mp inside]
    exact registryMutex_lt.2

/-- Each part finds the locks of the parts before it below its own. -/
theorem disable_ordered : (disable c : LockPlan n t Bool).Ordered [] fun depot after =>
    after = disabledLocks c depot := by
  refine Plan.Keeps.bind (initThreadMaybe_keeps c false) fun _ => ?_
  refine Plan.Ordered.bind (lockRegistry_ordered c) ?_
  rintro _ _ rfl
  have registry := below_registry (t := t) c
  refine Plan.Ordered.lock_bind registry ?_
  have quarantine : Below (stats :: registryLocks c) (recycleMutex : AllocatorLock n t) :=
    registry.cons (by simp only [lt_iff, rank]; omega)
  have cache := quarantine.cons (b := cacheMutex) (by simp only [lt_iff, rank]; omega)
  have lockQuarantine : (GlobalQuarantine.disable : LockPlan n t Unit).Ordered
      (stats :: registryLocks c) fun _ after =>
        after = cacheMutex :: recycleMutex :: stats :: registryLocks c :=
    Plan.Ordered.lock_bind quarantine (Plan.Ordered.lock cache rfl)
  refine Plan.Ordered.bind lockQuarantine ?_
  rintro _ _ rfl
  have regions : ∀ I : Fin n, Below (cacheMutex :: recycleMutex :: stats :: registryLocks c)
      (mmLock I : AllocatorLock n t) := fun I => cache.cons (by simp only [lt_iff, rank]; omega)
  refine Plan.Ordered.bind (Regions.disable_ordered regions) ?_
  rintro _ _ rfl
  have secondary : Below (allRegionLocks n t ++ cacheMutex :: recycleMutex :: stats :: registryLocks c)
      secondaryMutex := by
    intro other inside
    rcases List.mem_append.mp inside with inside | inside
    · obtain ⟨I, rfl | rfl⟩ := mem_allRegionLocks.mp inside
      · rw [lt_iff]
        simp only [rank]
        omega
      · rw [lt_iff]
        simp only [rank]
        omega
    · refine (regions 0 other inside).trans ?_
      rw [lt_iff]
      simp only [rank]
      omega
  have secondaryCache := secondary.cons (b := secondaryCacheMutex) (by simp only [lt_iff, rank]; omega)
  have ringBuffer := secondaryCache.cons (b := ringBufferInitLock) (by simp only [lt_iff, rank]; omega)
  have ringEnd := ringBuffer.cons (b := ringEndMu) (by simp only [lt_iff, rank]; omega)
  refine Plan.Ordered.bind (Plan.Ordered.lock_bind secondary (Plan.Ordered.lock secondaryCache rfl) :
    (MapAllocator.disable : LockPlan n t Unit).Ordered _ fun _ after => after = secondaryCacheMutex ::
      secondaryMutex :: (allRegionLocks n t ++ cacheMutex :: recycleMutex :: stats ::
        registryLocks c)) ?_
  rintro _ _ rfl
  refine Plan.Ordered.lock_bind ringBuffer (Plan.Keeps.bind Plan.Keeps.choose fun depot => ?_)
  cases depot with
  | true => exact Plan.Ordered.lock_bind ringEnd rfl
  | false => rfl

omit [NeZero n] in
theorem unlockRegistry_ordered [NeZero n] (c : Config n t) :
    (TSDRegistry.enable c : LockPlan n t Unit).Ordered (registryLocks c) fun _ after => after = [] := by
  unfold registryLocks
  rw [← List.map_reverse]
  refine Plan.Ordered.bind (Plan.Ordered.unlockAll tsd (disabledTSDs c.registry).reverse) ?_
  rintro _ _ rfl
  exact Plan.Ordered.unlock rfl

/-- `enable` gives everything back in the opposite order. -/
theorem enable_ordered (depot : Bool) : (enable c depot : LockPlan n t Unit).Ordered
    (disabledLocks c depot) fun _ after => after = [] := by
  have secondary : (do
      MapAllocator.enable
      Regions.enable
      GlobalQuarantine.enable
      .unlock stats
      TSDRegistry.enable c : LockPlan n t Unit).Ordered (secondaryCacheMutex :: secondaryMutex ::
        (allRegionLocks n t ++ cacheMutex :: recycleMutex :: stats :: registryLocks c))
        fun _ after => after = [] := by
    have maps (rest : List (AllocatorLock n t)) : (MapAllocator.enable : LockPlan n t Unit).Ordered
        (secondaryCacheMutex :: secondaryMutex :: rest) fun _ after => after = rest :=
      Plan.Ordered.unlock_bind (Plan.Ordered.unlock rfl)
    have quarantine (rest : List (AllocatorLock n t)) :
        (GlobalQuarantine.enable : LockPlan n t Unit).Ordered (cacheMutex :: recycleMutex :: rest)
          fun _ after => after = rest :=
      Plan.Ordered.unlock_bind (Plan.Ordered.unlock rfl)
    refine Plan.Ordered.bind (maps _) ?_
    rintro _ _ rfl
    refine Plan.Ordered.bind Regions.enable_ordered ?_
    rintro _ _ rfl
    refine Plan.Ordered.bind (quarantine _) ?_
    rintro _ _ rfl
    exact Plan.Ordered.unlock_bind (unlockRegistry_ordered c)
  have ringBuffer : (enableRingBuffer depot : LockPlan n t Unit).Ordered (disabledLocks c depot)
      fun _ after => after = secondaryCacheMutex :: secondaryMutex ::
        (allRegionLocks n t ++ cacheMutex :: recycleMutex :: stats :: registryLocks c) := by
    cases depot with
    | true => exact Plan.Ordered.unlock_bind (Plan.Ordered.unlock rfl)
    | false => exact Plan.Ordered.unlock rfl
  refine Plan.Ordered.bind ringBuffer ?_
  rintro _ _ rfl
  exact secondary

omit [NeZero t] in
theorem mem_disabledLocks_region [NeZero t] {depot : Bool} {lock : AllocatorLock n t}
    (region : lock ∈ allRegionLocks n t) : lock ∈ disabledLocks c depot := by
  unfold disabledLocks
  simp [region]

theorem whileDisabled_keeps : (whileDisabled c : LockPlan n t Unit).Keeps [] := by
  refine Plan.Ordered.bind (disable_ordered c) ?_
  rintro depot _ rfl
  have iterates : (iterateOverChunks : LockPlan n t Unit).Keeps (disabledLocks c depot) := by
    refine Plan.Keeps.bind (Regions.iterateOverBlocks_keeps fun lock region =>
      mem_disabledLocks_region c region) fun _ => ?_
    refine Plan.Keeps.assertHeld ?_
    simp [disabledLocks]
  refine Plan.Keeps.bind (Plan.Keeps.loop iterates) fun _ => ?_
  refine Plan.Keeps.bind (Plan.Keeps.assertHeld fun lock inside => inside) fun _ => ?_
  exact enable_ordered c depot

/-- Every call ends without a lock. -/
theorem Call.keeps {plan : LockPlan n t Unit} (call : Call c plan) : plan.Keeps [] := by
  cases call with
  | allocate => exact Plan.Keeps.bind (allocate_keeps c) fun _ => Plan.Keeps.pure ()
  | deallocate => exact deallocate_keeps c
  | reallocate => exact reallocate_keeps c
  | releaseToOS forceAll => exact releaseToOS_keeps c forceAll
  | drainCaches => exact drainCaches_keeps c
  | setOption maxTSDsCount =>
    refine Plan.Keeps.bind (initThreadMaybe_keeps c false) fun _ => ?_
    cases c.registry with
    | exclusive => exact Plan.Keeps.pure ()
    | shared =>
      cases maxTSDsCount with
      | true => exact Plan.Keeps.withLock Below.nil (Plan.Keeps.pure ())
      | false => exact Plan.Keeps.pure ()
  | getStats => exact getStats_keeps c
  | getStatCounters =>
    refine Plan.Keeps.bind (initThreadMaybe_keeps c false) fun _ => ?_
    exact Plan.Keeps.withLock Below.nil (Plan.Keeps.pure ())
  | printFragmentationInfo => exact getFragmentationInfo_keeps c.primary fun I => Below.nil
  | getMemoryGroupFragmentationInfo =>
    exact getMemoryGroupFragmentationInfo_keeps c.primary fun I => Below.nil
  | initThreadMaybe minimalInit => exact initThreadMaybe_keeps c minimalInit
  | setTrackAllocationStacks =>
    refine Plan.Keeps.bind (initThreadMaybe_keeps c false) fun _ => ?_
    refine Plan.Keeps.bind Plan.Keeps.choose fun tracks => ?_
    split_ifs
    · exact Plan.Keeps.withLock Below.nil (Plan.Keeps.pure ())
    · exact Plan.Keeps.pure ()
  | disableMemoryTagging =>
    refine Plan.Keeps.bind (initOnceMaybe_keeps c) fun _ => ?_
    exact Plan.Keeps.withLock Below.nil (Plan.Keeps.pure ())
  | secondaryCacheStats => exact Plan.Keeps.withLock Below.nil (Plan.Keeps.pure ())
  | teardownThread exclusive => exact commitBack_keeps c Below.nil
  | whileDisabled => exact whileDisabled_keeps c
  | otherProcess ops program => exact MapAllocator.arenas_keep program.disciplined

end Allocator

end Scudo.Locking
