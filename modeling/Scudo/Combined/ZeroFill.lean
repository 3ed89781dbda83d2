import Scudo.Combined.Placement
import Scudo.Secondary.Geometry

/-!
Zero filling of large chunks. The frontend does not fill blocks of the secondary, so each of its
paths must leave the user range zero. New mappings and cached blocks do; the arena path counts
the length of its fill from the block, which starts a chunk header before the user range, and
so leaves the last bytes of that range as they were.
-/

namespace Scudo.Combined
open Scudo.Secondary Scudo.SharedArena
open MapAllocator (adjust arenaAllocation cacheAllocation mapAllocation)

/-- Every byte of the user range reads as zero. -/
def UserZero (chunk : Chunk) (size : Nat) : Prop :=
  ∀ i, i < size → chunk.bytes (chunk.userPtr + i) = 0

/-- The last bytes of the place for the user range, at most a minimal alignment of them, are zero
in the arena before the call writes to it. -/
def TailZero (p : Platform) (sur : Surroundings) (size : Nat) (out : Handout) : Prop :=
  ∀ i, i < size → size ≤ i + p.word.minAlignment →
    sur.arenaBytes (out.entryHeaderPos + p.word.getHeadersSize + i) = 0

/-- Either no arena serves the call, or slack extends the fill, or nothing is left to fill. -/
def FillReaches (p : Platform) (settings : Settings) (sur : Surroundings) (call : Call) : Prop :=
  ∀ core out, MapAllocator.arenaHandout p sur
      (adjust p (secondaryRequest p settings call)) = some (core, out) →
    settings.opts.addLargeAllocationSlack = true ∨ TailZero p sur call.size out

section Fill

variable {p : Platform} {classes : SizeClassMap} {settings : Settings} {b : Backends} {call : Call}
  {sur : Surroundings} {req : Secondary.Request}

/-- Header bytes lie in front of the user range. -/
theorem writeHeader_user {block : LargeBlock} {headerBytes : Nat → UInt8} (i : Nat) :
    (block.writeHeader p headerBytes).memMap.bytes
        (block.headerPos + p.word.getHeadersSize + i) =
      block.memMap.bytes (block.headerPos + p.word.getHeadersSize + i) := by
  have headers := p.word.getHeadersSize_eq
  exact memcpy_outside _ _ _ _ _ (Or.inr (by omega))

/-- The arena path zeroes as many bytes as asked for, from the block pointer on. -/
theorem arenaAllocation_bytes {core i : Nat} {out : Handout} (zero : req.fill = .zeroFill)
    (ptr : (arenaAllocation p sur req core out).block.ptr p =
      out.entryHeaderPos + p.word.largeHeaderSize) :
    (arenaAllocation p sur req core out).block.memMap.bytes
        (out.entryHeaderPos + p.word.getHeadersSize + i) =
      if i + p.word.minAlignment < req.size then 0
      else sur.arenaBytes (out.entryHeaderPos + p.word.getHeadersSize + i) := by
  have headers := p.word.getHeadersSize_eq
  unfold arenaAllocation LargeBlock.fillIf
  dsimp only
  rw [if_pos (by rw [zero]; rfl), zero]
  change memset _ ((arenaAllocation p sur req core out).block.ptr p) 0 req.size _ = _
  rw [ptr]
  split_ifs with reached
  · exact memset_inside _ _ _ _ _ (by omega) (by omega)
  · rw [memset_outside _ _ _ _ _ (Or.inr (by omega))]
    exact writeHeader_user i

/-- A cached block is zero already, or is filled up to its end. -/
theorem cacheAllocation_bytes {entry : CachedBlock} {headerPos i : Nat} (ok : entry.Ok p)
    (zero : req.fill = .zeroFill)
    (fits : FitsIn p req entry.commitBase entry.commitSize headerPos)
    (inside : headerPos + p.word.getHeadersSize + i < entry.commitBase + entry.commitSize) :
    (cacheAllocation p sur req entry headerPos).block.memMap.bytes
      (headerPos + p.word.getHeadersSize + i) = 0 := by
  have headers := p.word.getHeadersSize_eq
  have header := fits.header
  have stop := ok.range.inside
  have pagePos := p.page.pos
  by_cases released : entry.time = 0
  · unfold cacheAllocation LargeBlock.fillIf
    dsimp only
    rw [if_neg (by simp [released])]
    have zeroed : entry.memMap.bytes (headerPos + p.word.getHeadersSize + i) = 0 :=
      ok.zero released _ (by omega) (by omega)
    exact (writeHeader_user i).trans zeroed
  · have ptr : (cacheAllocation p sur req entry headerPos).block.ptr p =
        headerPos + p.word.largeHeaderSize := by
      change wadd p.word.bits headerPos p.word.largeHeaderSize = _
      exact wadd_eq (by omega)
    have length : wsub p.word.bits (wadd p.word.bits entry.commitBase entry.commitSize)
        (headerPos + p.word.largeHeaderSize) =
        entry.commitBase + entry.commitSize - (headerPos + p.word.largeHeaderSize) := by
      rw [ok.range.stop_eq]
      exact wsub_eq (by omega) (by omega)
    unfold cacheAllocation LargeBlock.fillIf
    dsimp only
    rw [if_pos (by rw [zero]; simp [released]), zero]
    change memset _ ((cacheAllocation p sur req entry headerPos).block.ptr p) 0
      (wsub p.word.bits (wadd p.word.bits entry.commitBase entry.commitSize)
        ((cacheAllocation p sur req entry headerPos).block.ptr p)) _ = 0
    rw [ptr, length]
    exact memset_inside _ _ _ _ _ (by omega) (by omega)

/-- The pages of a new mapping are zero. -/
theorem mapAllocation_bytes {mapBase i : Nat} (adjusted : req.Adjusted p)
    (reserved : Reserved p mapBase (MapAllocator.mapSize p req.size req.alignment)) :
    (mapAllocation p sur req mapBase).block.memMap.bytes
      ((mapAllocation p sur req mapBase).block.headerPos + p.word.getHeadersSize + i) = 0 :=
  (writeHeader_user i).trans ((layout_sound adjusted reserved).zero _)

/-- A call that the primary does not serve ends in the chunk of a block of the secondary. -/
theorem allocate_secondary {cache cache' : Cache} {chunk : Chunk}
    (run : allocate p classes settings b cache call = some (chunk, cache'))
    (notPrimary : allocateFromPrimary p classes b.primary call.size
      (raisedAlignment p call.alignment) = none) :
    ∃ a result, MapAllocator.allocate p b.sur cache (secondaryRequest p settings call) =
        some (some a, cache', result) ∧
      chunk = secondaryChunk p classes b call (fillContentsOf settings call.zeroContents) a := by
  unfold allocate at run
  rw [notPrimary] at run
  dsimp only at run
  split_ifs at run
  split at run
  · next served =>
    cases run
    exact ⟨_, _, served, rfl⟩
  · cases run

/-- The user range of a block on the path that an arena serves. -/
theorem arena_userZero_iff {core : Nat} {out : Handout}
    (valid : call.Valid p) (fill : fillContentsOf settings call.zeroContents = .zeroFill)
    (sound : (arenaAllocation p sur (adjust p (secondaryRequest p settings call)) core
      out).Sound p (adjust p (secondaryRequest p settings call))) :
    (∀ i, i < call.size → (arenaAllocation p sur (adjust p (secondaryRequest p
        settings call)) core out).block.memMap.bytes
          (out.entryHeaderPos + p.word.getHeadersSize + i) = 0) ↔
      settings.opts.addLargeAllocationSlack = true ∨ TailZero p sur call.size out := by
  have bytes := fun i => arenaAllocation_bytes (i := i) (by exact fill)
    (placed valid sound).ptr
  simp only [bytes, adjust_size valid]
  cases slack : settings.opts.addLargeAllocationSlack with
  | true =>
    simp only [if_true, true_or, iff_true]
    intro i inside
    rw [if_pos (by omega)]
  | false =>
    simp only [Bool.false_eq_true, if_false, false_or, Nat.add_zero]
    constructor
    · intro all i inside last
      have value := all i inside
      rwa [if_neg (by omega)] at value
    · intro tail i inside
      split_ifs with reached
      · rfl
      · exact tail i inside (by omega)

end Fill

/-- With zero filling, a chunk of the secondary is zero if and only if the fill of the arena path
reaches the end of its user range or finds it zero; no other path matters. -/
theorem secondary_zero_fill_iff {p : Platform} {config : CacheConfig} {h : Heap}
    (reached : (Heap.system p config).Reachable h) {classes : SizeClassMap} {settings : Settings}
    {b : Backends} (sane : b.sur.Sane p) {call : Call} (valid : call.Valid p)
    (fill : fillContentsOf settings call.zeroContents = .zeroFill)
    (notPrimary : allocateFromPrimary p classes b.primary call.size
      (raisedAlignment p call.alignment) = none) {chunk : Chunk} {cache' : Cache}
    (run : allocate p classes settings b h.cache call = some (chunk, cache')) :
    UserZero chunk call.size ↔ FillReaches p settings b.sur call := by
  obtain ⟨a, result, served, rfl⟩ := allocate_secondary run notPrimary
  have request := valid.request settings
  have adjusted := adjust_adjusted request
  have path := allocate_path served
  have ok := (Heap.reachable_sound reached).cache
  have sound := path.sound adjusted sane ok
  have place := placed valid sound
  have userSize : call.size ≤ (adjust p (secondaryRequest p settings call)).size := by
    rw [adjust_size valid]
    omega
  have user : UserZero (secondaryChunk p classes b call
      (fillContentsOf settings call.zeroContents) a) call.size ↔
      ∀ i, i < call.size →
        a.block.memMap.bytes (a.block.headerPos + p.word.getHeadersSize + i) = 0 := by
    unfold UserZero
    rw [place.chunk_userPtr]
    simp only [place.chunk_bytes]
  rw [user]
  cases path with
  | arena core out retrieved serves =>
    refine (arena_userZero_iff valid fill sound).trans ?_
    constructor
    · intro condition core' out' serves'
      rw [serves] at serves'
      cases serves'
      exact condition
    · intro reaches
      exact reaches core out serves
  | own a notServed path =>
    have reaches : FillReaches p settings b.sur call := by
      intro core out serves
      rw [notServed] at serves
      cases serves
    refine iff_of_true ?_ reaches
    intro i inside
    cases path with
    | cache maxPages headerPos entry found retrieved =>
      obtain ⟨entryOk, fits, _⟩ := retrieved.sound adjusted ok
      have user := fits.user
      exact cacheAllocation_bytes entryOk fill fits (by omega)
    | map mapBase notFound maps => exact mapAllocation_bytes adjusted (sane.mmap _ _ maps)

/-- A primary of one class, for up to 64 KB. -/
def smallClasses : SizeClassMap := ⟨2 ^ 16, 1, fun _ => 1, fun _ => 2 ^ 16⟩

/-- An arena that serves the calls of core 0 and whose pages hold what others left in them. -/
def recycledArena : Surroundings :=
  { quietSurroundings Platform.linux64 with
    pool := ⟨true, 1, 1⟩
    cpu := some 0
    useArena := true
    arenaBytes := fun _ => 0x5A }

theorem recycledArena_sane : recycledArena.Sane Platform.linux64 :=
  { placed := (quietSurroundings_sane Platform.linux64).placed
    shared := (quietSurroundings_sane Platform.linux64).shared
    word := fun _ => rfl
    mmap := (quietSurroundings_sane Platform.linux64).mmap }

def recycledBackends : Backends := ⟨fun _ => none, fun _ => 0, recycledArena, fun _ => 0⟩

/-- `calloc` of 256 KB. -/
def largeCalloc : Call := ⟨2 ^ 18, 16, .malloc, true⟩

/-- The settings without fill, with and without slack. -/
def plainSettings (slack : Bool) : Settings := ⟨⟨slack, false⟩, .noFill, false⟩

/-- With slack the fill reaches the end of the chunk. -/
theorem secondary_zero_fill_iff_slack :
    ∃ chunk cache', allocate Platform.linux64 smallClasses (plainSettings true) recycledBackends
        (Cache.init noEntries 0) largeCalloc = some (chunk, cache') ∧
      UserZero chunk (2 ^ 18) := by
  have reached : (Heap.system Platform.linux64 noEntries).Reachable ⟨Cache.init noEntries 0, []⟩ :=
    Lib.System.Reachable.init ⟨0, rfl⟩
  have valid : largeCalloc.Valid Platform.linux64 := ⟨by decide, by decide, by decide⟩
  have fill : fillContentsOf (plainSettings true) largeCalloc.zeroContents = .zeroFill := rfl
  have reaches : FillReaches Platform.linux64 (plainSettings true) recycledBackends.sur
      largeCalloc :=
    fun _ _ _ => Or.inl rfl
  have notPrimary : allocateFromPrimary Platform.linux64 smallClasses recycledBackends.primary
      largeCalloc.size (raisedAlignment Platform.linux64 largeCalloc.alignment) = none := rfl
  refine ⟨_, _, rfl, ?_⟩
  exact (secondary_zero_fill_iff reached recycledArena_sane valid fill notPrimary rfl).mpr reaches

/-- Without slack `calloc` returns a chunk whose last byte is what the arena page held before. -/
theorem calloc_keeps_stale_bytes :
    (Heap.system Platform.linux64 noEntries).Reachable ⟨Cache.init noEntries 0, []⟩ ∧
      recycledArena.Sane Platform.linux64 ∧ largeCalloc.Valid Platform.linux64 ∧
      ∃ chunk cache', allocate Platform.linux64 smallClasses (plainSettings false)
          recycledBackends (Cache.init noEntries 0) largeCalloc = some (chunk, cache') ∧
        ¬UserZero chunk (2 ^ 18) := by
  refine ⟨Lib.System.Reachable.init ⟨0, rfl⟩, recycledArena_sane,
    ⟨by decide, by decide, by decide⟩, _, _, rfl, ?_⟩
  intro zero
  exact absurd (zero (2 ^ 18 - 1) (by decide)) (by decide)

end Scudo.Combined
