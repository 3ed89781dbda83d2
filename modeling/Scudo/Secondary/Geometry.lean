import Scudo.Secondary.Heap

/-!
The geometry of every secondary block, on all paths and in every run.
-/

namespace Scudo.Secondary
open Scudo.SharedArena

/-- The computations of the mapping path, without any wrapping: sizes, the commit range, and for
an over-aligned block the ends to which a 32-bit platform trims the reservation. -/
structure MapExact (p : Platform) (req : Request) (mapBase : Nat) (block : LargeBlock) : Prop where
  mapSize : MapAllocator.mapSize p req.size req.alignment =
    roundUpSlow (roundUpSlow req.size req.alignment + p.word.getHeadersSize) p.page.bytes +
      (req.alignment - p.page.bytes) + 2 * p.page.bytes
  mapEnd : wadd p.word.bits mapBase (MapAllocator.mapSize p req.size req.alignment) =
    mapBase + MapAllocator.mapSize p req.size req.alignment
  small : req.alignment < p.page.bytes → block.commitBase = mapBase + p.page.bytes ∧
    block.memMap.base = mapBase ∧
    block.memMap.capacity = MapAllocator.mapSize p req.size req.alignment
  large : p.page.bytes ≤ req.alignment →
    block.commitBase + p.page.bytes = roundUpSlow (mapBase + p.page.bytes + 1) req.alignment
  newMapBase : p.page.bytes ≤ req.alignment →
    MapAllocator.newMapBase p block.commitBase + p.page.bytes = block.commitBase ∧
      mapBase ≤ MapAllocator.newMapBase p block.commitBase
  newMapEnd : p.page.bytes ≤ req.alignment →
    MapAllocator.newMapEnd p block.commitBase req.size = block.commitBase + p.page.bytes +
        roundUpSlow req.size p.page.bytes + p.page.bytes ∧
      MapAllocator.newMapEnd p block.commitBase req.size ≤
        mapBase + MapAllocator.mapSize p req.size req.alignment
  trimmed : p.page.bytes ≤ req.alignment → p.word = .w32 →
    block.memMap.base = MapAllocator.newMapBase p block.commitBase ∧
      block.memMap.base + block.memMap.capacity =
        MapAllocator.newMapEnd p block.commitBase req.size
  untrimmed : p.word = .w64 → block.memMap.base = mapBase ∧
    block.memMap.capacity = MapAllocator.mapSize p req.size req.alignment
  commitSize : block.commitBase + block.commitSize + p.page.bytes =
    block.memMap.base + block.memMap.capacity
  headerPos : block.headerPos + p.word.getHeadersSize =
    roundDownSlow (block.commitBase + block.commitSize - req.size) req.alignment

section Exact
open MapAllocator

variable {p : Platform} {sur : Surroundings} {req : Request} {mapBase : Nat}

theorem mapAllocation_exact (adjusted : req.Adjusted p)
    (reserved : Reserved p mapBase (mapSize p req.size req.alignment)) :
    MapExact p req mapBase (mapAllocation p sur req mapBase).block := by
  have sound := layout_sound adjusted reserved
  have position := mapAllocation_headerPos sur reserved sound
  have size := mapSize_eq adjusted
  rw [roundedSize_eq adjusted] at size
  have large : p.page.bytes ≤ req.alignment → ∃ commitBase, AlignedBase p req mapBase commitBase ∧
      layout p req.size req.alignment mapBase =
        ⟨⟨if p.word = .w32 then newMapBase p commitBase else mapBase,
            if p.word = .w32 then newMapEnd p commitBase req.size - newMapBase p commitBase
              else mapSize p req.size req.alignment, fun _ => 0⟩, commitBase,
          if p.word = .w32 then newMapEnd p commitBase req.size
            else mapBase + mapSize p req.size req.alignment⟩ := by
    intro large
    obtain ⟨commitBase, base⟩ := alignedBase adjusted large reserved
    exact ⟨commitBase, base, layout_of_large adjusted large reserved base⟩
  constructor
  · exact size
  · exact wadd_eq reserved.inside
  · intro small
    change (layout p req.size req.alignment mapBase).commitBase = _ ∧
      (layout p req.size req.alignment mapBase).memMap.base = _ ∧
      (layout p req.size req.alignment mapBase).memMap.capacity = _
    rw [layout_of_small adjusted small reserved]
    exact ⟨rfl, rfl, rfl⟩
  · intro aligned
    obtain ⟨commitBase, base, shape⟩ := large aligned
    change (layout p req.size req.alignment mapBase).commitBase + _ = _
    rw [shape]
    exact base.exact
  · intro aligned
    obtain ⟨commitBase, base, shape⟩ := large aligned
    obtain ⟨newBase, _, newBase_ge, _⟩ := trim_inside adjusted aligned reserved base
    have above := base.above
    change newMapBase p (layout p req.size req.alignment mapBase).commitBase + _ =
      (layout p req.size req.alignment mapBase).commitBase ∧
      _ ≤ newMapBase p (layout p req.size req.alignment mapBase).commitBase
    rw [shape]
    exact ⟨by simp only [newBase]; omega, newBase_ge⟩
  · intro aligned
    obtain ⟨commitBase, base, shape⟩ := large aligned
    obtain ⟨_, newEnd, _, newEnd_le⟩ := trim_inside adjusted aligned reserved base
    change newMapEnd p (layout p req.size req.alignment mapBase).commitBase req.size =
      (layout p req.size req.alignment mapBase).commitBase + _ + _ + _ ∧
      newMapEnd p (layout p req.size req.alignment mapBase).commitBase req.size ≤ _
    rw [shape]
    exact ⟨newEnd, newEnd_le⟩
  · intro aligned word
    obtain ⟨commitBase, base, shape⟩ := large aligned
    obtain ⟨newBase, newEnd, _, _⟩ := trim_inside adjusted aligned reserved base
    change (layout p req.size req.alignment mapBase).memMap.base =
      newMapBase p (layout p req.size req.alignment mapBase).commitBase ∧
      (layout p req.size req.alignment mapBase).memMap.base +
        (layout p req.size req.alignment mapBase).memMap.capacity =
        newMapEnd p (layout p req.size req.alignment mapBase).commitBase req.size
    rw [shape]
    simp only [if_pos word, newBase, newEnd, true_and]
    omega
  · intro word
    change (layout p req.size req.alignment mapBase).memMap.base = _ ∧
      (layout p req.size req.alignment mapBase).memMap.capacity = _
    by_cases aligned : p.page.bytes ≤ req.alignment
    · obtain ⟨commitBase, base, shape⟩ := large aligned
      rw [shape, word]
      exact ⟨rfl, rfl⟩
    · rw [layout_of_small adjusted (by omega) reserved]
      exact ⟨rfl, rfl⟩
  · exact sound.guardAfter
  · rw [position]
    exact sound.allocPos_eq adjusted reserved

/-- A block on the mapping path is that of some reservation. -/
theorem Path.map_exact {cache cache' : Cache} {a : Allocation}
    (path : Path p sur cache cache' req a) (adjusted : req.Adjusted p) (sane : sur.Sane p)
    (source : a.source = .map) :
    ∃ mapBase, sur.mmap (mapSize p req.size req.alignment) = some mapBase ∧
      MapExact p req mapBase a.block := by
  cases path with
  | arena => cases source
  | own a notServed path =>
    cases path with
    | cache => cases source
    | map mapBase notFound maps =>
      exact ⟨mapBase, maps, mapAllocation_exact adjusted (sane.mmap _ _ maps)⟩

end Exact

/-- What holds for the request with slack and raised alignment holds for the one made. -/
theorem FitsIn.of_adjust {p : Platform} {req : Request} {commitBase commitSize headerPos : Nat}
    (valid : req.Valid p)
    (fits : FitsIn p (MapAllocator.adjust p req) commitBase commitSize headerPos) :
    FitsIn p req commitBase commitSize headerPos := by
  have adjusted := adjust_adjusted valid
  have user := fits.user
  have wide := p.word.maxAllowedMallocSize_lt
  have small := minAlignment_le p.word
  have sizeBound := valid.size_lt
  refine ⟨fits.header, ?_, ?_⟩
  · exact (isPowerOfTwo_dvd valid.power adjusted.power (le_max_left _ _)).trans fits.aligned
  · have larger : req.size ≤ (MapAllocator.adjust p req).size := by
      change req.size ≤ if req.opts.addLargeAllocationSlack then
        wadd p.word.bits req.size p.word.minAlignment else req.size
      split_ifs
      · rw [wadd_eq (by omega)]
        omega
      · exact le_rfl
    omega

/-- In every run of a heap every block handed out has room for its header and its aligned user
part inside a committed range of its mapping or arena; on the mapping path nothing wraps, and a
page stays uncommitted at both ends, also after the trimming. -/
theorem secondary_block_geometry {p : Platform} {config : CacheConfig} {h : Heap}
    (reached : (Heap.system p config).Reachable h) {sur : Surroundings} (sane : sur.Sane p)
    {req : Request} (valid : req.Valid p) {a : Allocation} {cache' : Cache}
    {result : Option (Nat × RetrieveResult)}
    (run : MapAllocator.allocate p sur h.cache req = some (some a, cache', result)) :
    a.Sound p (MapAllocator.adjust p req) ∧
      FitsIn p req a.block.commitBase a.block.commitSize a.block.headerPos ∧
      (a.source = .map → ∃ mapBase,
        sur.mmap (MapAllocator.mapSize p (MapAllocator.adjust p req).size
          (MapAllocator.adjust p req).alignment) = some mapBase ∧
        MapExact p (MapAllocator.adjust p req) mapBase a.block) := by
  have adjusted := adjust_adjusted valid
  have path := allocate_path run
  have sound := path.sound adjusted sane (Heap.reachable_sound reached).cache
  exact ⟨sound, sound.fits.of_adjust valid, path.map_exact adjusted sane⟩

/-- A cache that keeps nothing. -/
def noEntries : CacheConfig := ⟨0, 0, 0, 0, 0, 0, 0⟩

/-- Fresh arenas that are not used, and an address space that is free above 64 KB. -/
def quietSurroundings (p : Platform) : Surroundings where
  pid := 1
  cpu := none
  pool := Pool.unset
  useArena := false
  fillAllocDisabled := false
  env := ⟨false, false⟩
  loads := ⟨0, 0⟩
  arenas := World.fresh.object 0
  arenaMem := World.fresh.mem
  arenaBytes := fun _ => 0
  mmap := fun size => if 2 ^ 16 + size < 2 ^ p.word.bits ∧ p.page.bytes ∣ 2 ^ 16 then some (2 ^ 16)
    else none
  remap := true
  headerBytes := fun _ => 0

theorem quietSurroundings_sane (p : Platform) : (quietSurroundings p).Sane p := by
  constructor
  · exact World.fresh_initial.placed 0
  · intro _
    exact ⟨fun _ => ⟨false, false⟩, World.fresh, 0,
      Lib.System.Reachable.init World.fresh_initial, fun _ => ⟨rfl, rfl⟩⟩
  · intro uses
    cases uses
  · intro size base maps
    simp only [quietSurroundings, Option.ite_none_right_eq_some, Option.some.injEq] at maps
    obtain ⟨⟨inside, aligned⟩, rfl⟩ := maps
    exact ⟨aligned, inside⟩

/-- A request for one byte at a 1 MB boundary on a 32-bit platform, where both ends of the
reservation are trimmed. -/
theorem secondary_block_geometry_trimmed :
    ∃ a : Allocation, a.Sound Platform.linux32
        (MapAllocator.adjust Platform.linux32 ⟨⟨false, false⟩, 1, 2 ^ 20, .noFill⟩) ∧
      a.block.memMap.base = 0xFE000 ∧ a.block.memMap.capacity = 0x4000 ∧
      a.block.headerPos + 40 = 0x100000 := by
  have reached : (Heap.system Platform.linux32 noEntries).Reachable ⟨Cache.init noEntries 0, []⟩ :=
    Lib.System.Reachable.init ⟨0, rfl⟩
  have valid : Request.Valid Platform.linux32 ⟨⟨false, false⟩, 1, 2 ^ 20, .noFill⟩ :=
    ⟨by decide, by decide, by decide⟩
  exact ⟨_, (secondary_block_geometry reached (quietSurroundings_sane Platform.linux32) valid
    rfl).1, by decide, by decide, by decide⟩

end Scudo.Secondary
