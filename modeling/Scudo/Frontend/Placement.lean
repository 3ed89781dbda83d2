import Scudo.Combined.ClassRetry
import Scudo.Combined.ZeroFill
import Scudo.Frontend.Held
import Scudo.Primary.FreeListSafe

/-!
Where `allocate` puts a chunk. Blocks come from both backends with any content, and with zero filling
the rest of the block behind the pointer is zero.
-/

namespace Scudo.Frontend
open Scudo.Secondary
open Scudo.Combined (SizeClassMap Origin Backing Settings Backends Call)

/-- A class is large enough for every size whose class is not above it. -/
structure Roomy (classes : SizeClassMap) : Prop extends classes.Sane where
  maxSize_lt : classes.maxSize < 2 ^ 20
  room : ∀ size classId, 0 < size → size ≤ classes.maxSize → classes.getClassIdBySize size ≤ classId →
    classId ≤ classes.largestClassId → size ≤ classes.getSizeByClassId classId

/-- A map of sizes by formula, as far as the fields of the header hold its sizes and classes. -/
theorem fixedSizeClasses_roomy {config : Primary.SizeClassConfig} (ordered : config.Ordered)
    (maxSize_lt : Primary.FixedSizeClassMap.maxSize config < 2 ^ 20)
    (largest : Primary.FixedSizeClassMap.largestClassId config < 2 ^ 8) :
    Roomy (Combined.fixedSizeClasses config) := by
  have mono := Primary.FixedSizeClassMap.getSizeByClassId_strictMono ordered
  have last := Primary.FixedSizeClassMap.getSizeByClassId_largest ordered
  have positive (size : Nat) := @Primary.FixedSizeClassMap.getClassIdBySize_pos config size ordered
  have mid := Primary.FixedSizeClassMap.midClass_pos ordered
  have count := @Primary.FixedSizeClassMap.largestClassId_eq config
  have one : 1 ≤ Primary.FixedSizeClassMap.largestClassId config := by omega
  refine ⟨⟨maxSize_lt.le, largest, fun size _ le => ⟨positive size, ?_⟩, fun classId le => ?_⟩,
    maxSize_lt, fun size classId _ _ above _ => ?_⟩
  · apply (Primary.FixedSizeClassMap.getClassIdBySize_le_iff ordered one).mpr
    rw [last]
    exact le
  · exact le_of_le_of_eq (mono.monotone le) last
  · have one : 1 ≤ classId := le_trans (positive size) above
    exact (Primary.FixedSizeClassMap.getClassIdBySize_le_iff ordered one).mp above

/-- Blocks of the primary are aligned, and behind each there is more of the address space. -/
structure Provides (p : Platform) (classes : SizeClassMap) (b : Backends) : Prop where
  primary : ∀ classId block, classId ≤ classes.largestClassId → b.primary classId = some block →
    p.word.minAlignment ∣ block ∧ block + classes.getSizeByClassId classId < 2 ^ p.word.bits
  sur : b.sur.Sane p

/-- The blocks of the 64-bit primary are such: they are the blocks of its regions. -/
theorem unallocated_provides {n : Nat} [NeZero n] {c : Primary.Allocator64.BlockConfig n} {p : Platform}
    {classes : SizeClassMap} {b : Backends} (count : classes.largestClassId < n)
    (sizes : ∀ I : Fin n, c.getSizeByClassId I = classes.getSizeByClassId I)
    (scale : p.word.minAlignment = 2 ^ c.compactPtrScale)
    (aligned : ∀ I, p.word.minAlignment ∣ c.regionBeg I)
    (fits : ∀ I, c.regionBeg I + c.regionSize < 2 ^ p.word.bits)
    (given : ∀ (I : Fin n) block, b.primary I = some block →
      ∃ x ∈ Primary.Allocator64.unallocated c I 0, block = c.decompactPtrInternal (c.regionBeg I) x)
    (sane : b.sur.Sane p) : Provides p classes b := by
  refine ⟨fun classId block le found => ?_, sane⟩
  obtain ⟨x, member, rfl⟩ := given ⟨classId, by omega⟩ block found
  obtain ⟨k, -, lt, rfl⟩ := Primary.Allocator64.mem_unallocated.mp member
  have size : c.getSizeByClassId ⟨classId, by omega⟩ = classes.getSizeByClassId classId := sizes _
  have place : c.decompactPtrInternal (c.regionBeg ⟨classId, by omega⟩) (c.block ⟨classId, by omega⟩ k) =
      c.regionBeg ⟨classId, by omega⟩ + k * c.getSizeByClassId ⟨classId, by omega⟩ := by
    unfold Primary.PrimaryConfig.decompactPtrInternal
    rw [c.block_eq lt, Nat.shiftLeft_eq, Nat.mul_assoc, Nat.div_mul_cancel (c.scaled _)]
  have room : (k + 1) * c.getSizeByClassId ⟨classId, by omega⟩ ≤ c.regionSize :=
    ((Nat.le_div_iff_mul_le (c.positive _)).mp lt).trans (Nat.sub_le _ _)
  have below := fits ⟨classId, by omega⟩
  rw [Nat.succ_mul] at room
  rw [place, ← size]
  refine ⟨Nat.dvd_add (aligned _) (Dvd.dvd.mul_left ?_ k), by omega⟩
  rw [scale]
  exact c.scaled _

section Placement

variable {f : Setup} {settings : Settings} {b : Backends} {call : Call} {classId block : Nat}
  {fill : FillContentsMode}

/-- Of two multiples the smaller has room for one more. -/
theorem add_le_of_dvd {m x y : Nat} (first : m ∣ x) (second : m ∣ y) (less : x < y) : x + m ≤ y := by
  obtain ⟨i, rfl⟩ := first
  obtain ⟨j, rfl⟩ := second
  have below : i < j := lt_of_mul_lt_mul_left less (Nat.zero_le m)
  calc m * i + m = m * (i + 1) := (Nat.mul_succ m i).symm
    _ ≤ m * j := Nat.mul_le_mul_left m below

theorem minAlignment_dvd_word (word : WordSize) : word.minAlignment ∣ 2 ^ word.bits := by
  cases word <;> decide

/-- The block is one that the primary was asked for. -/
theorem retryLarger_asked {primary : Nat → Option Nat} {remaining classId classId' block : Nat}
    (found : Combined.retryLarger primary classId remaining = some (classId', block)) :
    primary classId' = some block := by
  induction remaining generalizing classId with
  | zero => cases found
  | succ remaining ih =>
    rw [Combined.retryLarger] at found
    split at found
    next asked =>
      cases found
      exact asked
    next => exact ih found

theorem allocateFromPrimary_asked {p : Platform} {classes : SizeClassMap} {primary : Nat → Option Nat}
    {size alignment : Nat}
    (served : Combined.allocateFromPrimary p classes primary size alignment = some (classId, block)) :
    Combined.neededSize p size alignment ≤ classes.maxSize ∧ primary classId = some block := by
  unfold Combined.allocateFromPrimary at served
  split_ifs at served with canAllocate
  dsimp only at served
  split at served
  next asked =>
    cases served
    exact ⟨canAllocate, asked⟩
  next => exact ⟨canAllocate, retryLarger_asked served⟩

/-- A power of two below `2 ^ 20` is half of it at most. -/
theorem power_le {x : Nat} (power : isPowerOfTwo x = true) (less : x < 2 ^ 20) : x ≤ 2 ^ 19 := by
  obtain ⟨k, rfl⟩ := isPowerOfTwo_iff.mp power
  have below : k < 20 := (Nat.pow_lt_pow_iff_right (by decide)).mp less
  exact Nat.pow_le_pow_right (by decide) (by omega)

theorem raisedAlignment_power (valid : call.Valid f.p) :
    isPowerOfTwo (Combined.raisedAlignment f.p call.alignment) = true :=
  (valid.request ⟨⟨false, false⟩, .noFill, false⟩).power

theorem raisedAlignment_ge (f : Setup) (call : Call) :
    f.p.word.minAlignment ≤ Combined.raisedAlignment f.p call.alignment := by
  rw [Combined.raisedAlignment_eq]
  exact le_max_right _ _

/-- The size that the primary is asked for. -/
theorem neededSize_eq (valid : call.Valid f.p) :
    Combined.neededSize f.p call.size (Combined.raisedAlignment f.p call.alignment) =
      roundUpSlow call.size f.p.word.minAlignment + Combined.raisedAlignment f.p call.alignment := by
  have most : Combined.raisedAlignment f.p call.alignment ≤ 2 ^ 24 :=
    (valid.request ⟨⟨false, false⟩, .noFill, false⟩).alignment_le
  have least := raisedAlignment_ge f call
  have headerSize := f.p.word.chunkHeaderSize_eq
  have positive := minAlignment_pos f.p.word
  have small := minAlignment_le f.p.word
  have wide := f.p.word.maxAllowedMallocSize_lt
  have sizeBound := valid.size_lt
  have sizeBelow := roundUpSlow_lt call.size positive
  unfold Combined.neededSize
  rw [roundUp_eq f.p.word.minAlignment_power (by omega) (by omega)]
  split_ifs with widened
  · exact wadd_eq (by omega)
  · rw [wadd_eq (by omega)]
    omega

/-- The user range of a block of the primary. -/
structure PrimaryPlaced (f : Setup) (call : Call) (block : Nat) : Prop where
  above : block + f.p.word.chunkHeaderSize ≤
    Combined.userPtrOf f.p block (Combined.raisedAlignment f.p call.alignment)
  aligned : f.p.word.minAlignment ∣
    Combined.userPtrOf f.p block (Combined.raisedAlignment f.p call.alignment)
  user : Combined.userPtrOf f.p block (Combined.raisedAlignment f.p call.alignment) + call.size ≤
    block + Combined.neededSize f.p call.size (Combined.raisedAlignment f.p call.alignment)
  close : Combined.userPtrOf f.p block (Combined.raisedAlignment f.p call.alignment) <
    block + f.p.word.chunkHeaderSize + 2 ^ 16 * f.p.word.minAlignment

theorem primary_placed (valid : call.Valid f.p)
    (needed : Combined.neededSize f.p call.size (Combined.raisedAlignment f.p call.alignment) < 2 ^ 20)
    (aligned : f.p.word.minAlignment ∣ block)
    (inside : block + Combined.neededSize f.p call.size (Combined.raisedAlignment f.p call.alignment) <
      2 ^ f.p.word.bits) :
    PrimaryPlaced f call block := by
  have power := raisedAlignment_power valid
  have least := raisedAlignment_ge f call
  have headerSize := f.p.word.chunkHeaderSize_eq
  have positive := minAlignment_pos f.p.word
  have small := minAlignment_le f.p.word
  have room := minAlignment_ge f.p.word
  have size := neededSize_eq valid
  have sizeAbove := le_roundUpSlow call.size positive
  rw [size] at needed inside
  have userPtr : Combined.userPtrOf f.p block (Combined.raisedAlignment f.p call.alignment) =
      roundUp f.p.word.bits (wadd f.p.word.bits block f.p.word.chunkHeaderSize)
        (Combined.raisedAlignment f.p call.alignment) := rfl
  have divides : f.p.word.minAlignment ∣ Combined.raisedAlignment f.p call.alignment :=
    isPowerOfTwo_dvd f.p.word.minAlignment_power power least
  have alignmentLe : Combined.raisedAlignment f.p call.alignment ≤ 2 ^ 19 :=
    power_le power (by omega)
  -- both ends of the address space and of the block are multiples
  have last : block + Combined.raisedAlignment f.p call.alignment + f.p.word.minAlignment ≤
      2 ^ f.p.word.bits :=
    add_le_of_dvd (Nat.dvd_add aligned divides) (minAlignment_dvd_word f.p.word) (by omega)
  have default : wadd f.p.word.bits block f.p.word.chunkHeaderSize =
      block + f.p.word.minAlignment := by
    rw [headerSize]
    exact wadd_eq (by omega)
  rw [default, roundUp_eq power (by omega) (by omega)] at userPtr
  have above := le_roundUpSlow (block + f.p.word.minAlignment) (isPowerOfTwo_pos power)
  have below := roundUpSlow_lt (block + f.p.word.minAlignment) (isPowerOfTwo_pos power)
  have multiple : f.p.word.minAlignment ∣
      roundUpSlow (block + f.p.word.minAlignment) (Combined.raisedAlignment f.p call.alignment) :=
    divides.trans (dvd_roundUpSlow _ _)
  have stop := add_le_of_dvd multiple
    (Nat.dvd_add (Nat.dvd_add aligned (dvd_refl _)) divides) below
  rw [← userPtr] at above multiple stop
  exact ⟨by omega, multiple, by omega, by omega⟩

/-- What the primary was asked for, and what it gave. -/
structure PrimaryServed (f : Setup) (call : Call) (classId block : Nat) : Prop where
  placed : PrimaryPlaced f call block
  aligned : f.p.word.minAlignment ∣ block
  classId_pos : 0 < classId
  classId_lt : classId < 2 ^ 8
  small : f.classes.getSizeByClassId classId ≤ 2 ^ 20
  size_lt : call.size < 2 ^ 20
  room : Combined.neededSize f.p call.size (Combined.raisedAlignment f.p call.alignment) ≤
    f.classes.getSizeByClassId classId
  stop : block + f.classes.getSizeByClassId classId < 2 ^ f.p.word.bits

theorem primary_served (roomy : Roomy f.classes) (provides : Provides f.p f.classes b)
    (valid : call.Valid f.p)
    (served : Combined.allocateFromPrimary f.p f.classes b.primary call.size
      (Combined.raisedAlignment f.p call.alignment) = some (classId, block)) :
    PrimaryServed f call classId block := by
  obtain ⟨canAllocate, asked⟩ := allocateFromPrimary_asked served
  have maxSize := roomy.maxSize_lt
  have largest := roomy.largestClassId_lt
  have size := neededSize_eq valid
  have sizeAbove := le_roundUpSlow call.size (minAlignment_pos f.p.word)
  have least := raisedAlignment_ge f call
  have minAlignmentPos := minAlignment_pos f.p.word
  have positive : 0 < Combined.neededSize f.p call.size
      (Combined.raisedAlignment f.p call.alignment) := by omega
  obtain ⟨first, inside⟩ := roomy.classId _ positive canAllocate
  obtain ⟨above, below⟩ := Combined.allocateFromPrimary_class served fun _ => inside
  obtain ⟨aligned, stop⟩ := provides.primary classId block below asked
  have room := roomy.room _ classId positive canAllocate above below
  have small := roomy.size_le classId below
  have placed := primary_placed valid (by omega) aligned (by omega)
  exact ⟨placed, aligned, by omega, by omega, by omega, by omega, room, stop⟩

/-- A chunk of the primary, whatever its block had before. -/
theorem PrimaryServed.held (served : PrimaryServed f call classId block) (b : Backends)
    (fill : FillContentsMode) :
    ∃ header, Held f (f.primaryChunk b call fill classId block) header call.size ∧
      header.state = allocated ∧ blockEndOf f (f.primaryChunk b call fill classId block) header =
        block + f.classes.getSizeByClassId classId := by
  have placed := served.placed
  have user := placed.user
  have room := served.room
  have stop := served.stop
  have class_ : (BitVec.ofNat 8 classId).toNat = classId := by
    rw [BitVec.toNat_ofNat]
    exact Nat.mod_eq_of_lt served.classId_lt
  have size : (BitVec.ofNat 20 call.size).toNat = call.size := by
    rw [BitVec.toNat_ofNat]
    exact Nat.mod_eq_of_lt served.size_lt
  have nonzero : BitVec.ofNat 8 classId ≠ 0 := by
    intro zero
    have positive := served.classId_pos
    rw [← class_, zero] at positive
    exact absurd positive (by decide)
  refine ⟨_, initChunk_held rfl placed.above placed.aligned served.aligned placed.close ?_ ?_ ?_, rfl,
    congrArg (fun classId => block + f.classes.getSizeByClassId classId) class_⟩
  · change _ ≤ block + f.classes.getSizeByClassId (BitVec.ofNat 8 classId).toNat
    rw [class_]
    omega
  · change block + f.classes.getSizeByClassId (BitVec.ofNat 8 classId).toNat < _
    rw [class_]
    exact stop
  · refine ⟨nonzero, ?_, size⟩
    change f.classes.getSizeByClassId (BitVec.ofNat 8 classId).toNat ≤ _
    rw [class_]
    exact served.small

/-- A chunk of the secondary. -/
theorem secondary_held {a : Allocation} (valid : call.Valid f.p)
    (sound : a.Sound f.p (MapAllocator.adjust f.p (Combined.secondaryRequest f.p settings call)))
    (fill : FillContentsMode) :
    ∃ header, Held f (f.secondaryChunk call fill a) header call.size ∧ header.state = allocated := by
  have placed := Combined.placed valid sound
  have ptr := placed.ptr
  have userPtr := placed.userPtr
  have user := placed.user
  have blockEnd := sound.blockEnd
  have headers := f.p.word.getHeadersSize_eq
  have headerSize := f.p.word.chunkHeaderSize_eq
  have inside := placed.inside
  have pagePos := f.p.page.pos
  have userAligned : f.p.word.minAlignment ∣ Combined.userPtrOf f.p (a.block.ptr f.p)
      (Combined.raisedAlignment f.p call.alignment) := by
    rw [userPtr]
    exact (isPowerOfTwo_dvd f.p.word.minAlignment_power (raisedAlignment_power valid)
      (raisedAlignment_ge f call)).trans placed.aligned
  have aligned : f.p.word.minAlignment ∣ a.block.ptr f.p := by
    have back : a.block.ptr f.p = Combined.userPtrOf f.p (a.block.ptr f.p)
        (Combined.raisedAlignment f.p call.alignment) - f.p.word.minAlignment := by omega
    rw [back]
    exact Nat.dvd_sub userAligned (dvd_refl _)
  have unused : wsub f.p.word.bits a.blockEnd (wadd f.p.word.bits
      (Combined.userPtrOf f.p (a.block.ptr f.p) (Combined.raisedAlignment f.p call.alignment))
      call.size) = a.blockEnd - (Combined.userPtrOf f.p (a.block.ptr f.p)
        (Combined.raisedAlignment f.p call.alignment) + call.size) := by
    rw [userPtr, wadd_eq (by omega)]
    exact wsub_eq (by omega) (by omega)
  refine ⟨_, initChunk_held rfl (by omega) userAligned aligned ?_ ?_ ?_ ?_, rfl⟩
  · have positive := minAlignment_pos f.p.word
    omega
  · change _ ≤ a.block.commitBase + a.block.commitSize
    omega
  · change a.block.commitBase + a.block.commitSize < _
    omega
  · refine ⟨rfl, ?_⟩
    change (BitVec.ofNat 20 _).toNat = _
    rw [BitVec.toNat_ofNat, unused, blockEnd]

/-- What `allocate` did: it found a block in the primary, or in the secondary. -/
inductive Allocated (f : Setup) (settings : Settings) (b : Backends) (large : Secondary.Heap)
    (call : Call) : StoredChunk → Secondary.Heap → Prop
  | primary (classId block : Nat)
      (served : Combined.allocateFromPrimary f.p f.classes b.primary call.size
        (Combined.raisedAlignment f.p call.alignment) = some (classId, block)) :
      Allocated f settings b large call
        (f.primaryChunk b call (Combined.fillContentsOf settings call.zeroContents) classId block) large
  | secondary (a : Allocation) (cache : Cache) (result : Option (Nat × SharedArena.RetrieveResult))
      (notPrimary : Combined.allocateFromPrimary f.p f.classes b.primary call.size
        (Combined.raisedAlignment f.p call.alignment) = none)
      (served : MapAllocator.allocate f.p b.sur large.cache
        (Combined.secondaryRequest f.p settings call) = some (some a, cache, result)) :
      Allocated f settings b large call
        (f.secondaryChunk call (Combined.fillContentsOf settings call.zeroContents) a)
        ⟨cache, large.inUse ++ [a.block]⟩

variable {large large' : Secondary.Heap} {chunk : StoredChunk} {config : CacheConfig}

theorem allocate_cases (power : isPowerOfTwo call.alignment = true)
    (run : f.allocate settings b large call = some (some chunk, large')) :
    call.Valid f.p ∧ Allocated f settings b large call chunk large' := by
  unfold Setup.allocate at run
  split_ifs at run with alignment size
  · cases run
  · cases run
  · refine ⟨⟨by omega, power, by omega⟩, ?_⟩
    dsimp only at run
    split at run
    next classId block served =>
      cases run
      exact Allocated.primary classId block served
    next notPrimary =>
      split at run
      next => cases run
      next => cases run
      next a cache result served =>
        cases run
        exact Allocated.secondary a cache result notPrimary served

/-- The secondary takes the step, whatever comes of it. -/
theorem allocate_reachable {found : Option StoredChunk} (provides : Provides f.p f.classes b)
    (power : isPowerOfTwo call.alignment = true)
    (heap : (Secondary.Heap.system f.p config).Reachable large)
    (run : f.allocate settings b large call = some (found, large')) :
    (Secondary.Heap.system f.p config).Reachable large' := by
  unfold Setup.allocate at run
  split_ifs at run with alignment size
  · cases run
    exact heap
  · cases run
    exact heap
  · have valid : call.Valid f.p := ⟨by omega, power, by omega⟩
    dsimp only at run
    split at run
    next =>
      cases run
      exact heap
    next =>
      split at run
      next => cases run
      next cache result served =>
        cases run
        have step := heap.step (Secondary.Heap.Step.allocate b.sur _ none _ _ provides.sur
          (valid.request settings) served)
        rwa [Option.map_none, Option.toList_none, List.append_nil] at step
      next a cache result served =>
        cases run
        exact heap.step (Secondary.Heap.Step.allocate b.sur _ (some a) _ _ provides.sur
          (valid.request settings) served)

/-- Zero filling is configured. -/
structure ZeroFilling (settings : Settings) : Prop where
  mode : settings.fillContentsMode = .zeroFill
  enabled : settings.disableMemInit = false

/-- What the primary does not serve, no arena serves. -/
def NoArena (f : Setup) (settings : Settings) (b : Backends) (call : Call) : Prop :=
  Combined.allocateFromPrimary f.p f.classes b.primary call.size
      (Combined.raisedAlignment f.p call.alignment) = none →
    MapAllocator.arenaHandout f.p b.sur
      (MapAllocator.adjust f.p (Combined.secondaryRequest f.p settings call)) = none

theorem ZeroFilling.contents (filling : ZeroFilling settings) (zeroContents : Bool) :
    Combined.fillContentsOf settings zeroContents = .zeroFill := by
  unfold Combined.fillContentsOf
  rw [filling.enabled, filling.mode]
  cases zeroContents <;> rfl

/-- A block of the primary is filled as a whole. -/
theorem PrimaryServed.zero (served : PrimaryServed f call classId block) (b : Backends) {a : Nat}
    (behind : (f.primaryChunk b call .zeroFill classId block).userPtr ≤ a)
    (below : a < block + f.classes.getSizeByClassId classId) :
    (f.primaryChunk b call .zeroFill classId block).bytes a = 0 := by
  have above := served.placed.above
  have user := served.placed.user
  have room := served.room
  have stop := served.stop
  have positive := served.classId_pos
  change Combined.userPtrOf f.p block _ ≤ a at behind
  have value := @initChunk_behind f b.primaryBytes classId block _ call.size call.origin
    (.primary block) .zeroFill a above (by omega) behind
  rw [if_pos ⟨by omega, by decide⟩] at value
  exact value.trans (memset_inside _ _ _ _ _ (by omega) below)

/-- A block of the secondary is zero up to its end, unless an arena provides it. -/
theorem secondary_zero {a : Allocation} {cache cache' : Cache} (sane : b.sur.Sane f.p)
    (valid : call.Valid f.p) (ok : cache.Ok f.p)
    (zeroFill : Combined.fillContentsOf settings call.zeroContents = .zeroFill)
    (own : MapAllocator.arenaHandout f.p b.sur
      (MapAllocator.adjust f.p (Combined.secondaryRequest f.p settings call)) = none)
    (path : Path f.p b.sur cache cache'
      (MapAllocator.adjust f.p (Combined.secondaryRequest f.p settings call)) a) {i : Nat}
    (below : a.block.headerPos + f.p.word.getHeadersSize + i <
      a.block.commitBase + a.block.commitSize) :
    a.block.memMap.bytes (a.block.headerPos + f.p.word.getHeadersSize + i) = 0 := by
  have adjusted := adjust_adjusted (valid.request settings)
  cases path with
  | arena core out retrieved serves =>
    rw [own] at serves
    cases serves
  | own a notServed path =>
    cases path with
    | cache maxPages headerPos entry found retrieved =>
      obtain ⟨entryOk, fits, _⟩ := retrieved.sound adjusted ok
      exact Combined.cacheAllocation_bytes entryOk zeroFill fits below
    | map mapBase notFound maps => exact Combined.mapAllocation_bytes adjusted (sane.mmap _ _ maps)

/-- A new chunk is held and allocated; with zero filling it is zero from the pointer on. -/
theorem Allocated.held (made : Allocated f settings b large call chunk large')
    (roomy : Roomy f.classes) (provides : Provides f.p f.classes b) (valid : call.Valid f.p)
    (heap : (Secondary.Heap.system f.p config).Reachable large) :
    ∃ header, Held f chunk header call.size ∧ header.state = allocated ∧
      (ZeroFilling settings → NoArena f settings b call → ∀ a, chunk.userPtr ≤ a → a < blockEndOf f chunk header →
        chunk.bytes a = 0) := by
  cases made with
  | primary classId block served =>
    have served := primary_served roomy provides valid served
    obtain ⟨header, held, state, blockEnd⟩ := served.held b
      (Combined.fillContentsOf settings call.zeroContents)
    refine ⟨header, held, state, fun filling _ a behind below => ?_⟩
    rw [blockEnd] at below
    rw [filling.contents] at behind ⊢
    exact served.zero b behind below
  | secondary a cache result notPrimary served =>
    have ok := (Secondary.Heap.reachable_sound heap).cache
    have path := allocate_path served
    have sound := path.sound (adjust_adjusted (valid.request settings)) provides.sur ok
    have placed := Combined.placed valid sound
    have userPtr := placed.userPtr
    have ptr := placed.ptr
    have inside := placed.inside
    have user := placed.user
    have pagePos := f.p.page.pos
    have headers := f.p.word.getHeadersSize_eq
    have headerSize := f.p.word.chunkHeaderSize_eq
    obtain ⟨header, held, state⟩ := secondary_held valid sound
      (Combined.fillContentsOf settings call.zeroContents)
    refine ⟨header, held, state, fun filling own addr behind below => ?_⟩
    change Combined.userPtrOf f.p _ _ ≤ addr at behind
    change addr < a.block.commitBase + a.block.commitSize at below
    have value := @initChunk_behind f a.block.memMap.bytes 0 (a.block.ptr f.p)
      (Combined.userPtrOf f.p (a.block.ptr f.p) (Combined.raisedAlignment f.p call.alignment))
      (wsub f.p.word.bits a.blockEnd (wadd f.p.word.bits
        (Combined.userPtrOf f.p (a.block.ptr f.p) (Combined.raisedAlignment f.p call.alignment))
        call.size)) call.origin (.secondary a.block)
      (Combined.fillContentsOf settings call.zeroContents) addr (by omega) (by omega) behind
    rw [if_neg (fun both => both.1 rfl)] at value
    have zero := @secondary_zero f settings b call a large.cache cache provides.sur valid ok
      (filling.contents _) (own notPrimary) path
      (addr - (a.block.headerPos + f.p.word.getHeadersSize)) (by omega)
    rw [Nat.add_sub_cancel' (by omega)] at zero
    exact value.trans zero

end Placement

end Scudo.Frontend
