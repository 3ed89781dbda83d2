import Scudo.Combined.ZeroFill

/-!
The size that the allocator recovers from a chunk header. Chunks of the primary store their size
in a field of 20 bits; those of the secondary store there how many bytes the block has behind
the user range. What is recovered is the size asked for last as long as that number fits.
-/

namespace Scudo.Combined
open Scudo.Secondary Scudo.SharedArena
open MapAllocator (adjust arenaAllocation cacheAllocation mapAllocation)

/-- What an aligned placement in a new mapping leaves behind the user range, from the address of
the reservation and the request alone. -/
def mapGap (p : Platform) (req : Secondary.Request) (mapBase : Nat) : Nat :=
  if p.page.bytes ≤ req.alignment ∧ p.word = .w64 then
    (mapBase + p.page.bytes + (roundUpSlow req.size req.alignment - req.size)) % req.alignment
  else roundUpSlow req.size (min req.alignment p.page.bytes) - req.size

/-- What the placement leaves in the range that will serve a request: that of the arena or of the
cache, if one of them has a block, else that of the mapping. -/
def placementGap (p : Platform) (sur : Surroundings) (cache : Cache) (req : Secondary.Request) :
    Nat :=
  match MapAllocator.arenaHandout p sur req with
  | some (_, out) => (out.commitBase + out.commitSize - req.size) % req.alignment
  | none =>
    match MapAllocator.cachedBlock p sur cache req with
    | some a => (a.block.commitBase + a.block.commitSize - req.size) % req.alignment
    | none =>
      match sur.mmap (MapAllocator.mapSize p req.size req.alignment) with
      | some mapBase => mapGap p req mapBase
      | none => 0

/-- The slack also stays behind the user range. -/
def slackOf (p : Platform) (settings : Settings) : Nat :=
  if settings.opts.addLargeAllocationSlack then p.word.minAlignment else 0

/-- A call serves from the primary, or leaves less than 1 MB behind the user range. -/
def allocationFits (p : Platform) (classes : SizeClassMap) (settings : Settings) (b : Backends)
    (cache : Cache) (call : Call) : Bool :=
  (allocateFromPrimary p classes b.primary call.size (raisedAlignment p call.alignment)).isSome ||
    decide (placementGap p b.sur cache (adjust p (secondaryRequest p settings call)) +
      slackOf p settings < 2 ^ 20)

/-- The same for a reallocation: in place the new end of the user range must stay within 1 MB of
the end of the block. -/
def reallocationFits (p : Platform) (classes : SizeClassMap) (settings : Settings) (b : Backends)
    (cache : Cache) (chunk : Chunk) (newSize alignment : Nat) : Bool :=
  match reallocateBounds p classes chunk with
  | none => false
  | some (blockEnd, oldSize) =>
    if resizesInPlace p chunk newSize blockEnd oldSize then
      if chunk.header.classId ≠ 0 then decide (newSize < 2 ^ 20)
      else decide (wsub p.word.bits blockEnd (wadd p.word.bits chunk.userPtr newSize) < 2 ^ 20)
    else allocationFits p classes settings b cache ⟨newSize, alignment, .malloc, false⟩

section Gap

variable {p : Platform} {classes : SizeClassMap} {settings : Settings} {b : Backends} {call : Call}
  {sur : Surroundings} {req : Secondary.Request} {cache cache' : Cache}

/-- What lies between an end and the next alignment boundary below it. -/
theorem sub_roundDownSlow (x boundary : Nat) : x - roundDownSlow x boundary = x % boundary := by
  have split := Nat.div_add_mod x boundary
  unfold roundDownSlow
  rw [Nat.mul_comm]
  omega

theorem mod_of_dvd_add {x y boundary : Nat} (multiple : boundary ∣ x) (small : y < boundary) :
    (x + y) % boundary = y := by
  obtain ⟨q, rfl⟩ := multiple
  rw [Nat.mul_add_mod, Nat.mod_eq_of_lt small]

theorem mapGap_eq {mapBase : Nat} {block : LargeBlock} (adjusted : req.Adjusted p)
    (reserved : Reserved p mapBase (MapAllocator.mapSize p req.size req.alignment))
    (exact : MapExact p req mapBase block) :
    (block.commitBase + block.commitSize - req.size) % req.alignment = mapGap p req mapBase := by
  have size := exact.mapSize
  have stop := exact.commitSize
  have userAbove := le_roundUpSlow req.size adjusted.pos
  have userBelow := roundUpSlow_lt req.size adjusted.pos
  unfold mapGap
  by_cases large : p.page.bytes ≤ req.alignment
  · have rounded := roundedSize_of_large adjusted large
    rw [mapSize_eq adjusted, rounded] at size
    cases word : p.word with
    | w64 =>
      obtain ⟨base, capacity⟩ := exact.untrimmed word
      rw [mapSize_eq adjusted, rounded] at capacity
      rw [if_pos ⟨large, rfl⟩]
      have last : block.commitBase + block.commitSize - req.size = mapBase + p.page.bytes +
          (roundUpSlow req.size req.alignment - req.size) + req.alignment := by omega
      rw [last, Nat.add_mod_right]
    | w32 =>
      obtain ⟨_, trimmed⟩ := exact.trimmed large word
      obtain ⟨newEnd, _⟩ := exact.newMapEnd large
      have pageAbove := le_roundUpSlow req.size p.page.pos
      have pageBelow := roundUpSlow_lt req.size p.page.pos
      rw [if_neg (by simp), min_eq_right large]
      have last : block.commitBase + block.commitSize - req.size =
          block.commitBase + p.page.bytes + (roundUpSlow req.size p.page.bytes - req.size) := by
        omega
      rw [last]
      exact mod_of_dvd_add (exact.large large ▸ dvd_roundUpSlow _ _) (by omega)
  · obtain ⟨commitBase, base, capacity⟩ := exact.small (by omega)
    have alignmentDvd : req.alignment ∣ p.page.bytes :=
      isPowerOfTwo_dvd adjusted.power p.page.power (by omega)
    have roundedAbove := le_roundUpSlow
      (roundUpSlow req.size req.alignment + p.word.getHeadersSize) p.page.pos
    have roundedDvd := alignmentDvd.trans (dvd_roundUpSlow
      (roundUpSlow req.size req.alignment + p.word.getHeadersSize) p.page.bytes)
    rw [if_neg (fun both => large both.1), min_eq_left (by omega)]
    have last : block.commitBase + block.commitSize - req.size =
        mapBase + p.page.bytes + (roundUpSlow (roundUpSlow req.size req.alignment +
          p.word.getHeadersSize) p.page.bytes - roundUpSlow req.size req.alignment) +
          (roundUpSlow req.size req.alignment - req.size) := by omega
    rw [last]
    apply mod_of_dvd_add _ (by omega)
    apply Nat.dvd_add (alignmentDvd.trans (Nat.dvd_add reserved.aligned (dvd_refl _)))
    exact Nat.dvd_sub roundedDvd (dvd_roundUpSlow _ _)

/-- The gap is known before the call. -/
theorem Path.gap_eq {a : Allocation} (path : Path p sur cache cache' req a)
    (adjusted : req.Adjusted p) (sane : sur.Sane p) :
    (a.block.commitBase + a.block.commitSize - req.size) % req.alignment =
      placementGap p sur cache req := by
  unfold placementGap
  cases path with
  | arena core out retrieved served =>
    rw [served]
    rfl
  | own a notServed path =>
    rw [notServed]
    cases path with
    | cache maxPages headerPos entry found =>
      rw [found]
    | map mapBase notFound maps =>
      rw [notFound, maps]
      exact mapGap_eq adjusted (sane.mmap _ _ maps)
        (mapAllocation_exact adjusted (sane.mmap _ _ maps))

/-- The number that the frontend stores for a block of the secondary. -/
theorem unusedBytes_eq {a : Allocation} (valid : call.Valid p)
    (sound : a.Sound p (adjust p (secondaryRequest p settings call)))
    (path : Path p sur cache cache' (adjust p (secondaryRequest p settings call)) a)
    (sane : sur.Sane p) :
    a.blockEnd - (a.block.headerPos + p.word.getHeadersSize + call.size) =
      placementGap p sur cache (adjust p (secondaryRequest p settings call)) +
        slackOf p settings := by
  have adjusted := adjust_adjusted (valid.request settings)
  have gap := Path.gap_eq path adjusted sane
  have left := sub_roundDownSlow (a.block.commitBase + a.block.commitSize -
    (adjust p (secondaryRequest p settings call)).size)
    (adjust p (secondaryRequest p settings call)).alignment
  have size : (adjust p (secondaryRequest p settings call)).size = _ := adjust_size valid
  have user := sound.fits.user
  rw [← gap, ← left, ← sound.position, sound.blockEnd]
  unfold slackOf
  omega

/-- An alignment below 1 MB leaves less than that behind the user range. -/
theorem placementGap_lt (adjusted : req.Adjusted p) :
    placementGap p sur cache req < req.alignment := by
  have pos := adjusted.pos
  unfold placementGap
  split
  · exact Nat.mod_lt _ pos
  · split
    · exact Nat.mod_lt _ pos
    · split
      · unfold mapGap
        split_ifs
        · exact Nat.mod_lt _ pos
        · have below := roundUpSlow_lt req.size (lt_min pos p.page.pos)
          have smaller := min_le_left req.alignment p.page.bytes
          omega
      · exact pos

/-- So only large alignments can leave more than the field holds. -/
theorem allocationFits_of_alignment (valid : call.Valid p)
    (small : max call.alignment p.word.minAlignment + p.word.minAlignment ≤ 2 ^ 20) :
    allocationFits p classes settings b cache call = true := by
  have below : placementGap p b.sur cache (adjust p (secondaryRequest p settings call)) < _ :=
    placementGap_lt (adjust_adjusted (valid.request settings))
  have raised : (adjust p (secondaryRequest p settings call)).alignment ≤
      max call.alignment p.word.minAlignment := by
    change max (raisedAlignment p call.alignment) p.word.minAlignment ≤ _
    unfold raisedAlignment
    split_ifs <;> omega
  have slack : slackOf p settings ≤ p.word.minAlignment := by
    unfold slackOf
    split_ifs <;> omega
  unfold allocationFits
  rw [Bool.or_eq_true, decide_eq_true_iff]
  exact Or.inr (by omega)

/-- The primary only serves sizes that its field can hold, from classes with a number. -/
theorem allocateFromPrimary_some (sane : classes.Sane) (valid : call.Valid p)
    {primary : Nat → Option Nat} {classId block : Nat}
    (served : allocateFromPrimary p classes primary call.size (raisedAlignment p call.alignment) =
      some (classId, block)) :
    0 < classId ∧ classId < 2 ^ 8 ∧ call.size < 2 ^ 20 := by
  have wide := p.word.maxAllowedMallocSize_lt
  have small := minAlignment_le p.word
  have smallPos := minAlignment_pos p.word
  have sizeBound := valid.size_lt
  have raised : raisedAlignment p call.alignment ≤ 2 ^ 24 := (valid.request ⟨⟨false, false⟩,
    .noFill, false⟩).alignment_le
  have userAbove := le_roundUpSlow call.size smallPos
  have userBelow := roundUpSlow_lt call.size smallPos
  have chunkHeader := p.word.chunkHeaderSize_eq
  have needed : call.size < neededSize p call.size (raisedAlignment p call.alignment) := by
    unfold neededSize
    rw [roundUp_eq p.word.minAlignment_power (by omega) (by omega)]
    split_ifs
    · rw [wadd_eq (by omega)]
      omega
    · rw [wadd_eq (by omega)]
      omega
  unfold allocateFromPrimary at served
  split_ifs at served with canAllocate
  have maxSize := sane.maxSize_le
  have largest := sane.largestClassId_lt
  obtain ⟨classPos, classLe⟩ := sane.classId _ (by omega) canAllocate
  dsimp only at served
  split at served
  · cases served
    exact ⟨classPos, by omega, by omega⟩
  · obtain ⟨above, below⟩ := retryLarger_some served
    exact ⟨by omega, by omega, by omega⟩

end Gap

/-- What a chunk stores for the size `size`, and when that can be read back. -/
inductive Stores (p : Platform) (chunk : Chunk) (size : Nat) (fits : Bool) : Prop
  | primary (classId : chunk.header.classId ≠ 0)
      (stored : chunk.header.sizeOrUnusedBytes = size % 2 ^ 20)
      (holds : fits = true ↔ size < 2 ^ 20)
  | secondary (blockEnd : Nat) (classId : chunk.header.classId = 0)
      (found : secondaryBlockEnd p chunk (getBlockBegin p chunk) = some blockEnd)
      (ends : blockEnd < 2 ^ p.word.bits) (starts : chunk.userPtr < 2 ^ p.word.bits)
      (small : size < 2 ^ p.word.bits)
      (stored : chunk.header.sizeOrUnusedBytes =
        wsub p.word.bits blockEnd (wadd p.word.bits chunk.userPtr size) % 2 ^ 20)
      (holds : fits = true ↔
        wsub p.word.bits blockEnd (wadd p.word.bits chunk.userPtr size) < 2 ^ 20)

section Stores

variable {p : Platform} {chunk : Chunk} {size : Nat} {fits : Bool}

theorem and_sizeOrUnusedBytesMask (x : Nat) : x &&& sizeOrUnusedBytesMask = x % 2 ^ 20 :=
  Nat.and_two_pow_sub_one_eq_mod x 20

theorem mod_eq_self_iff {x m : Nat} (pos : 0 < m) : x % m = x ↔ x < m :=
  ⟨fun same => same ▸ Nat.mod_lt x pos, Nat.mod_eq_of_lt⟩

/-- Subtracting the stored number from the rest of the block gives the size back exactly when
nothing of the number was cut off. -/
theorem recovered_iff {w blockEnd userPtr size stored : Nat} (ends : blockEnd < 2 ^ w)
    (starts : userPtr < 2 ^ w) (small : size < 2 ^ w) (bound : stored < 2 ^ w) :
    wsub w (wsub w blockEnd userPtr) stored = size ↔
      stored = wsub w blockEnd (wadd w userPtr size) := by
  have first := wsub_ite ends starts
  have sum := wadd_ite starts small
  have sumBound : wadd w userPtr size < 2 ^ w := wrap_lt _ _
  have firstBound : wsub w blockEnd userPtr < 2 ^ w := wrap_lt _ _
  rw [wsub_ite firstBound bound, wsub_ite ends sumBound]
  split_ifs at first sum ⊢ <;> omega

/-- The same for the computation of `reallocate`. -/
theorem recovered_old_iff {w blockEnd userPtr size stored : Nat} (ends : blockEnd < 2 ^ w)
    (starts : userPtr < 2 ^ w) (small : size < 2 ^ w) (bound : stored < 2 ^ w) :
    wsub w blockEnd (wadd w userPtr stored) = size ↔
      stored = wsub w blockEnd (wadd w userPtr size) := by
  have sum := wadd_ite starts small
  have other := wadd_ite starts bound
  have sumBound : wadd w userPtr size < 2 ^ w := wrap_lt _ _
  have otherBound : wadd w userPtr stored < 2 ^ w := wrap_lt _ _
  rw [wsub_ite ends otherBound, wsub_ite ends sumBound]
  split_ifs at sum other ⊢ <;> omega

theorem Stores.getSize_iff (stores : Stores p chunk size fits) :
    getSize p chunk = some size ↔ fits = true := by
  unfold getSize
  cases stores with
  | primary classId stored holds =>
    rw [if_pos classId, stored, holds, Option.some.injEq, mod_eq_self_iff (by decide)]
  | secondary blockEnd classId found ends starts small stored holds =>
    have wide := p.word.bits_le
    have cut := Nat.mod_lt (wsub p.word.bits blockEnd (wadd p.word.bits chunk.userPtr size))
      (by decide : 0 < 2 ^ 20)
    rw [if_neg (by simpa using classId), found]
    simp only [Option.some.injEq]
    rw [recovered_iff ends starts small (by omega), stored, mod_eq_self_iff (by decide), holds]

theorem Stores.oldSize_iff (stores : Stores p chunk size fits) (classes : SizeClassMap) :
    (∃ blockEnd, reallocateBounds p classes chunk = some (blockEnd, size)) ↔ fits = true := by
  unfold reallocateBounds
  cases stores with
  | primary classId stored holds =>
    rw [if_pos classId, stored, holds, ← mod_eq_self_iff (by decide)]
    simp
  | secondary blockEnd classId found ends starts small stored holds =>
    have wide := p.word.bits_le
    have cut := Nat.mod_lt (wsub p.word.bits blockEnd (wadd p.word.bits chunk.userPtr size))
      (by decide : 0 < 2 ^ 20)
    rw [if_neg (by simpa using classId), found, holds, ← mod_eq_self_iff (by decide), ← stored,
      ← recovered_old_iff ends starts small (by omega)]
    simp

/-- The bytes of the chunk do not matter. -/
theorem Stores.of_bytes (stores : Stores p chunk size fits) (bytes : Nat → UInt8) :
    Stores p { chunk with bytes := bytes } size fits := by
  cases stores with
  | primary classId stored holds => exact Stores.primary classId stored holds
  | secondary blockEnd classId found ends starts small stored holds =>
    exact Stores.secondary blockEnd classId found ends starts small stored holds

end Stores

section Steps

variable {p : Platform} {config : CacheConfig} {classes : SizeClassMap} {settings : Settings}
  {b : Backends} {h : Heap} {call : Call} {chunk chunk' : Chunk} {cache' : Cache}

/-- `allocate` stores the size, and what it stores fits under the condition on its inputs. -/
theorem allocate_stores (reached : (Heap.system p config).Reachable h) (saneClasses : classes.Sane)
    (sane : b.sur.Sane p) (valid : call.Valid p)
    (run : allocate p classes settings b h.cache call = some (chunk, cache')) :
    Stores p chunk call.size (allocationFits p classes settings b h.cache call) := by
  have wide := p.word.maxAllowedMallocSize_lt
  have sizeBound := valid.size_lt
  cases primary : allocateFromPrimary p classes b.primary call.size
      (raisedAlignment p call.alignment) with
  | some found =>
    obtain ⟨classId, block⟩ := found
    obtain ⟨classPos, classSmall, sizeSmall⟩ := allocateFromPrimary_some saneClasses valid primary
    unfold allocate at run
    rw [primary] at run
    dsimp only at run
    split_ifs at run
    cases run
    have masked : classId &&& classIdMask = classId := by
      rw [show classIdMask = 2 ^ 8 - 1 from rfl, Nat.and_two_pow_sub_one_eq_mod]
      exact Nat.mod_eq_of_lt classSmall
    apply Stores.primary
    · change classId &&& classIdMask ≠ 0
      omega
    · exact and_sizeOrUnusedBytesMask _
    · unfold allocationFits
      rw [primary]
      simpa using sizeSmall
  | none =>
    obtain ⟨a, result, served, rfl⟩ := allocate_secondary run primary
    have path := allocate_path served
    have sound := path.sound (adjust_adjusted (valid.request settings)) sane
      (Heap.reachable_sound reached).cache
    have place := placed valid sound
    have user := place.user
    have inside := place.inside
    have pagePos := p.page.pos
    have headers := p.word.getHeadersSize_eq
    have chunkHeader := p.word.chunkHeaderSize_eq
    have headersPos := p.word.getHeadersSize_pos
    have unused := unusedBytes_eq valid sound path sane
    have number : wsub p.word.bits a.blockEnd (wadd p.word.bits
        (a.block.headerPos + p.word.getHeadersSize) call.size) =
        placementGap p b.sur h.cache (adjust p (secondaryRequest p settings call)) +
          slackOf p settings := by
      rw [← unused, wadd_eq (by omega), wsub_eq (by omega) (by omega)]
    have blockBegin : getBlockBegin p (secondaryChunk p classes b call
        (fillContentsOf settings call.zeroContents) a) = a.block.ptr p := by
      unfold getBlockBegin secondaryChunk initChunk
      dsimp only
      rw [place.userPtr, place.default, place.ptr, if_neg (by simp), Nat.zero_mul,
        wrap_eq (by omega),
        wsub_eq (x := a.block.headerPos + p.word.getHeadersSize) (by omega) (by omega),
        wsub_eq (by omega) (by omega)]
      omega
    apply Stores.secondary a.blockEnd
    · rfl
    · rw [blockBegin]
      have ends : a.block.getBlockEnd p = a.blockEnd := by
        rw [sound.blockEnd]
        exact sound.range.stop_eq
      unfold secondaryBlockEnd secondaryChunk initChunk
      dsimp only
      rw [if_pos rfl, ends]
    · omega
    · rw [place.chunk_userPtr]
      omega
    · omega
    · unfold secondaryChunk initChunk
      exact and_sizeOrUnusedBytesMask _
    · rw [place.chunk_userPtr, number]
      unfold allocationFits
      rw [primary]
      simp

theorem reallocate_inPlace {cache : Cache} {newSize blockEnd oldSize : Nat} (alignment : Nat)
    (small : newSize < p.word.maxAllowedMallocSize)
    (bounds : reallocateBounds p classes chunk = some (blockEnd, oldSize))
    (stays : resizesInPlace p chunk newSize blockEnd oldSize = true) :
    reallocate p classes settings b cache chunk newSize alignment =
      some (resizeInPlace p settings chunk newSize blockEnd oldSize, cache) := by
  unfold reallocate
  rw [if_neg (by omega), bounds]
  dsimp only
  rw [if_pos stays]

/-- `reallocate` stores the new size, in place or in a new chunk. -/
theorem reallocate_stores {size newSize alignment : Nat} {fits : Bool}
    (reached : (Heap.system p config).Reachable h) (saneClasses : classes.Sane)
    (sane : b.sur.Sane p) (stores : Stores p chunk size fits)
    (valid : Call.Valid p ⟨newSize, alignment, .malloc, false⟩)
    (run : reallocate p classes settings b h.cache chunk newSize alignment =
      some (chunk', cache')) :
    Stores p chunk' newSize
      (reallocationFits p classes settings b h.cache chunk newSize alignment) := by
  have wide := p.word.maxAllowedMallocSize_lt
  have sizeBound : newSize < p.word.maxAllowedMallocSize := valid.size_lt
  unfold reallocate at run
  unfold reallocationFits
  rw [if_neg (by omega)] at run
  cases bounds : reallocateBounds p classes chunk with
  | none =>
    rw [bounds] at run
    cases run
  | some found =>
    obtain ⟨blockEnd, oldSize⟩ := found
    rw [bounds] at run
    dsimp only at run ⊢
    by_cases inPlace : resizesInPlace p chunk newSize blockEnd oldSize = true
    · rw [if_pos inPlace] at run ⊢
      cases run
      cases stores with
      | primary classId stored holds =>
        apply Stores.primary
        · exact classId
        · unfold resizeInPlace
          dsimp only
          rw [if_pos classId]
          exact and_sizeOrUnusedBytesMask _
        · rw [if_pos classId, decide_eq_true_iff]
      | secondary ends classId found bounded starts small stored holds =>
        have same : blockEnd = ends := by
          unfold reallocateBounds at bounds
          rw [if_neg (by simpa using classId), found] at bounds
          cases bounds
          rfl
        subst same
        apply Stores.secondary blockEnd
        · exact classId
        · exact found
        · exact bounded
        · exact starts
        · omega
        · unfold resizeInPlace
          dsimp only
          rw [if_neg (by simpa using classId)]
          exact and_sizeOrUnusedBytesMask _
        · rw [if_neg (by simpa using classId), decide_eq_true_iff]
          rfl
    · rw [if_neg inPlace] at run ⊢
      split at run
      · cases run
      · next moved cache'' allocates =>
        cases run
        exact (allocate_stores reached saneClasses sane valid allocates).of_bytes _

end Steps

/-- One chunk over its life: the size asked for last, and whether the last step left a number
that fits, as told from the state and the inputs of that step alone. -/
structure Life where
  chunk : Chunk
  requested : Nat
  fits : Bool

namespace Life

/-- A chunk just allocated, in any state of the secondary. -/
inductive Start (p : Platform) (config : CacheConfig) (classes : SizeClassMap) : Life → Prop
  | allocate (h : Heap) (settings : Settings) (b : Backends) (call : Call) (chunk : Chunk)
      (cache' : Cache) (reached : (Heap.system p config).Reachable h) (sane : b.sur.Sane p)
      (valid : call.Valid p)
      (run : Combined.allocate p classes settings b h.cache call = some (chunk, cache')) :
      Start p config classes
        ⟨chunk, call.size, allocationFits p classes settings b h.cache call⟩

/-- A successful `reallocate`, in any state that other calls have left the secondary in. -/
inductive Step (p : Platform) (config : CacheConfig) (classes : SizeClassMap) : Life → Life → Prop
  | reallocate {l : Life} (h : Heap) (settings : Settings) (b : Backends)
      (newSize alignment : Nat) (chunk' : Chunk) (cache' : Cache)
      (reached : (Heap.system p config).Reachable h) (sane : b.sur.Sane p)
      (valid : Call.Valid p ⟨newSize, alignment, .malloc, false⟩)
      (run : Combined.reallocate p classes settings b h.cache l.chunk newSize alignment =
        some (chunk', cache')) :
      Step p config classes l ⟨chunk', newSize,
        reallocationFits p classes settings b h.cache l.chunk newSize alignment⟩

def system (p : Platform) (config : CacheConfig) (classes : SizeClassMap) : Lib.System Life :=
  ⟨Start p config classes, Step p config classes⟩

theorem reachable_stores {p : Platform} {config : CacheConfig} {classes : SizeClassMap} {l : Life}
    (saneClasses : classes.Sane) (reached : (system p config classes).Reachable l) :
    Stores p l.chunk l.requested l.fits := by
  apply reached.invariant
  · intro s start
    cases start with
    | allocate h settings b call chunk cache' heap sane valid run =>
      exact allocate_stores heap saneClasses sane valid run
  · intro s s' stores step
    cases step with
    | reallocate h settings b newSize alignment chunk' cache' heap sane valid run =>
      exact reallocate_stores heap saneClasses sane stores valid run

end Life

/-- Quiet surroundings whose mappings start half way between two boundaries of 1 MB. -/
def offsetSurroundings : Surroundings :=
  { quietSurroundings Platform.linux64 with
    mmap := fun size => if 0x180000 + size < 2 ^ 64 then some 0x180000 else none }

theorem offsetSurroundings_sane : offsetSurroundings.Sane Platform.linux64 := by
  have quiet := quietSurroundings_sane Platform.linux64
  refine ⟨quiet.placed, quiet.shared, quiet.word, ?_⟩
  intro size base maps
  simp only [offsetSurroundings, Option.ite_none_right_eq_some, Option.some.injEq] at maps
  obtain ⟨inside, rfl⟩ := maps
  exact ⟨by decide, inside⟩

def offsetBackends : Backends := ⟨fun _ => none, fun _ => 0, offsetSurroundings, fun _ => 0⟩

def memalign (exponent : Nat) : Call := ⟨2 ^ exponent, 2 ^ exponent, .memalign, false⟩

theorem smallClasses_sane : smallClasses.Sane where
  maxSize_le := by decide
  largestClassId_lt := by decide
  classId := fun _ _ _ => ⟨Nat.one_pos, le_rfl⟩
  size_le := fun _ _ => le_of_eq rfl

/-- In every run of `allocate` and `reallocate` the size that `getSize` and `reallocate` recover
is the one asked for last if and only if the last step met its condition. -/
theorem size_round_trip_iff {p : Platform} {config : CacheConfig} {classes : SizeClassMap}
    (saneClasses : classes.Sane) {l : Life}
    (reached : (Life.system p config classes).Reachable l) :
    (getSize p l.chunk = some l.requested ↔ l.fits = true) ∧
      ((∃ blockEnd, reallocateBounds p classes l.chunk = some (blockEnd, l.requested)) ↔
        l.fits = true) := by
  have stores := Life.reachable_stores saneClasses reached
  exact ⟨stores.getSize_iff, stores.oldSize_iff classes⟩

/-- At a boundary of 1 MB the size survives, also when the chunk shrinks in place. -/
theorem size_round_trip_iff_shrunk :
    ∃ chunk cache' chunk' cache'', allocate Platform.linux64 smallClasses (plainSettings false)
        offsetBackends (Cache.init noEntries 0) (memalign 20) = some (chunk, cache') ∧
      reallocate Platform.linux64 smallClasses (plainSettings false) offsetBackends
        (Cache.init noEntries 0) chunk 1048000 16 = some (chunk', cache'') ∧
      getSize Platform.linux64 chunk' = some 1048000 := by
  have heap : (Heap.system Platform.linux64 noEntries).Reachable ⟨Cache.init noEntries 0, []⟩ :=
    Lib.System.Reachable.init ⟨0, rfl⟩
  obtain ⟨chunk, cache', allocates, bounds, stays, fits⟩ : ∃ chunk cache',
      allocate Platform.linux64 smallClasses (plainSettings false) offsetBackends
        (Cache.init noEntries 0) (memalign 20) = some (chunk, cache') ∧
      reallocateBounds Platform.linux64 smallClasses chunk = some (0x381000, 2 ^ 20) ∧
      resizesInPlace Platform.linux64 chunk 1048000 0x381000 (2 ^ 20) = true ∧
      reallocationFits Platform.linux64 smallClasses (plainSettings false) offsetBackends
        (Cache.init noEntries 0) chunk 1048000 16 = true :=
    ⟨_, _, rfl, by decide, by decide, by decide⟩
  have shrinks : reallocate Platform.linux64 smallClasses (plainSettings false) offsetBackends
      (Cache.init noEntries 0) chunk 1048000 16 = _ :=
    reallocate_inPlace 16 (by decide) bounds stays
  have start : (Life.system Platform.linux64 noEntries smallClasses).Reachable _ :=
    Lib.System.Reachable.init (Life.Start.allocate _ _ _ _ _ _ heap offsetSurroundings_sane
      ⟨by decide, by decide, by decide⟩ allocates)
  have shrunk := start.step (Life.Step.reallocate _ _ _ _ _ _ _ heap offsetSurroundings_sane
    ⟨by decide, by decide, by decide⟩ shrinks)
  exact ⟨_, _, _, _, allocates, shrinks,
    (size_round_trip_iff smallClasses_sane shrunk).1.mpr fits⟩

/-- An alignment of 2 MB leaves 1.5 MB behind the user range, and 1 MB of that is cut off. -/
theorem size_truncated :
    (Heap.system Platform.linux64 noEntries).Reachable ⟨Cache.init noEntries 0, []⟩ ∧
      smallClasses.Sane ∧ offsetSurroundings.Sane Platform.linux64 ∧
      (memalign 21).Valid Platform.linux64 ∧
      ∃ chunk cache', allocate Platform.linux64 smallClasses (plainSettings false) offsetBackends
          (Cache.init noEntries 0) (memalign 21) = some (chunk, cache') ∧
        getSize Platform.linux64 chunk = some (3 * 2 ^ 20) ∧
        getSize Platform.linux64 chunk ≠ some (2 ^ 21) := by
  exact ⟨Lib.System.Reachable.init ⟨0, rfl⟩, smallClasses_sane, offsetSurroundings_sane,
    ⟨by decide, by decide, by decide⟩, _, _, rfl, by decide, by decide⟩

end Scudo.Combined
