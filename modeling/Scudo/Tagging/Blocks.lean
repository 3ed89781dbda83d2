import Scudo.Frontend.Placement
import Scudo.Tagging.Outcomes

/-!
One block while memory tagging is enabled: what holds of it while it has a chunk, and what a chunk that
was released leaves for the next one, also when pages were reclaimed in between.
-/

namespace Scudo.Tagging
open Scudo.Lib MemoryTags
open Scudo.Secondary (FillContentsMode memset memset_inside memset_outside)
open Scudo.Frontend (Setup Held allocated quarantined)

namespace Config

variable (c : Config)

/-- The end of a block. -/
def stop (block : Nat) : Nat := block + c.blockSize

/-- The page of an address. -/
def page (x : Nat) : Nat := (x - c.base) / c.f.p.page.bytes

/-- The chunk that the beginning of a block leads to. -/
def lastChunk (m : Memory) (block : Nat) : Nat := (c.f.getChunkFromBlock m.bytes block).1

def lastHeader (m : Memory) (block : Nat) : Chunk.UnpackedHeader :=
  (c.f.getChunkFromBlock m.bytes block).2.1

/-- The page of `x` has no tags in the block, and neither has a page that lies in the block. -/
structure Bare (m : Memory) (block x : Nat) : Prop where
  here : ∀ y, block ≤ y → y < c.stop block → c.page y = c.page x → m.tagAt y = 0
  inner : ∀ y, block ≤ y → y < c.stop block →
    block ≤ c.base + c.page y * c.f.p.page.bytes →
    c.base + (c.page y + 1) * c.f.p.page.bytes ≤ c.stop block → m.tagAt y = 0

/-- What is left in a block without a chunk: if there is a tag where the last chunk began, it is on all
of its granules but those of pages that were reclaimed; and it is zero where its header says so. -/
structure Reusable (stray : Prop) (m : Memory) (block : Nat) : Prop where
  above : block + 16 ≤ c.lastChunk m block
  aligned : 16 ∣ c.lastChunk m block
  below : c.lastChunk m block + (c.lastHeader m block).sizeOrUnusedBytes.toNat ≤ c.stop block
  front : m.tagAt (c.lastChunk m block - 16) = 0
  tags : ∀ x, c.lastChunk m block ≤ x →
    x < stopOf (c.lastChunk m block) (c.lastHeader m block).sizeOrUnusedBytes.toNat →
    m.tagAt (c.lastChunk m block) ≠ 0 →
    m.tagAt x = m.tagAt (c.lastChunk m block) ∨ c.Bare m block x
  zero : ¬stray → (c.lastHeader m block).originOrWasZeroed ≠ 0 → ∀ x, c.lastChunk m block ≤ x →
    x < stopOf (c.lastChunk m block) (c.lastHeader m block).sizeOrUnusedBytes.toNat → m.bytes x = 0

/-- The granules of a chunk have its tag, and those around it have tag 0. -/
structure Tagged (m : Memory) (tag userPtr size block : Nat) : Prop where
  front : m.tagAt (userPtr - 16) = 0
  inside : ∀ x, userPtr ≤ x → x < stopOf userPtr size → m.tagAt x = tag
  behind : stopOf userPtr size < c.stop block → m.tagAt (stopOf userPtr size) = 0
  empty : size = 0 → userPtr < c.stop block → m.bytes userPtr = UInt8.ofNat tag

/-- The header of a chunk of the class. -/
structure Holds (m : Memory) (block userPtr size : Nat) (state : BitVec 2)
    (header : Chunk.UnpackedHeader) : Prop where
  held : Held c.f ⟨userPtr, .primary block, m.bytes⟩ header size
  classId : header.classId = BitVec.ofNat 8 c.classId
  state : header.state = state

section Words

variable {c} {m m' : Memory} {block userPtr size : Nat} {state : BitVec 2} {header : Chunk.UnpackedHeader}

theorem classId_toNat (c : Config) : (BitVec.ofNat 8 c.classId).toNat = c.classId := by
  rw [BitVec.toNat_ofNat]
  exact Nat.mod_eq_of_lt c.classId_lt

namespace Holds

variable (holds : c.Holds m block userPtr size state header)
include holds

theorem bounds : block + 16 ≤ userPtr ∧ userPtr + size ≤ c.stop block ∧ c.stop block < 2 ^ 64 ∧
    16 ∣ block ∧ 16 ∣ userPtr := by
  have place := holds.held.place
  have inside := holds.held.inside
  have stop := holds.held.stop
  have aligned := holds.held.aligned
  change userPtr + size ≤ block + c.f.classes.getSizeByClassId header.classId.toNat at inside
  change block + c.f.classes.getSizeByClassId header.classId.toNat < _ at stop
  change userPtr = block + _ + _ at place
  change _ ∣ block at aligned
  rw [holds.classId, c.classId_toNat] at inside stop
  rw [c.headerSize_eq, c.minAlignment_eq] at place
  rw [c.bits_eq] at stop
  rw [c.minAlignment_eq] at aligned
  refine ⟨by omega, inside, stop, aligned, ?_⟩
  rw [place]
  omega

theorem size_eq : header.sizeOrUnusedBytes.toNat = size := holds.held.sizeStored.2.2

theorem classId_ne : header.classId ≠ 0 := holds.held.sizeStored.1

theorem loads : c.f.loadHeader userPtr m.bytes = some header := holds.held.loads

theorem getBlockBegin_eq : c.f.getBlockBegin userPtr header = block := holds.held.getBlockBegin_eq

/-- The chunk is the last one of its block. -/
theorem last (known : state ≠ 3) : c.lastChunk m block = userPtr ∧ c.lastHeader m block = header := by
  have found := holds.held.getChunkFromBlock_eq (by rw [holds.state]; exact known)
  change c.f.getChunkFromBlock m.bytes block = _ at found
  unfold lastChunk lastHeader
  rw [found]
  exact ⟨rfl, rfl⟩

/-- Only the first words of the block and the header matter. -/
theorem congr (first : ∀ x, block ≤ x → x < block + 8 → m'.bytes x = m.bytes x)
    (front : ∀ x, userPtr - 16 ≤ x → x < userPtr - 8 → m'.bytes x = m.bytes x) :
    c.Holds m' block userPtr size state header := by
  obtain ⟨above, inside, fits, -⟩ := holds.bounds
  obtain ⟨⟨loads, place, aligned, marked, inBlock, stop, stored⟩, classId, known⟩ := holds
  refine ⟨⟨?_, place, aligned, fun shifted => ?_, inBlock, stop, stored⟩, classId, known⟩
  · change c.f.loadHeader userPtr m.bytes = some header at loads
    change c.f.loadHeader userPtr m'.bytes = some header
    rw [← loads]
    apply Frontend.loadHeader_congr
    intro k lt
    rw [c.headerSize_eq, c.bits_eq, wsub_eq (by omega) (by omega)]
    exact front _ (by omega) (by omega)
  · obtain ⟨marker, value⟩ := marked shifted
    change Chunk.load32 m.bytes block = _ at marker
    change (Chunk.load32 m.bytes (block + 4)).toNat = _ at value
    have marker' := @Chunk.load32_congr m.bytes m'.bytes block fun k lt =>
      first (block + k) (by omega) (by omega)
    have value' := @Chunk.load32_congr m.bytes m'.bytes (block + 4) fun k lt =>
      first (block + 4 + k) (by omega) (by omega)
    exact ⟨marker'.trans marker, (congrArg BitVec.toNat value').trans value⟩

/-- Another state or size in the header. -/
theorem store {header' : Chunk.UnpackedHeader} {size' : Nat} (offset : header'.offset = header.offset)
    (classId : header'.classId = header.classId) (inside : userPtr + size' ≤ c.stop block)
    (stored : header'.sizeOrUnusedBytes.toNat = size') :
    c.Holds ⟨m.tags, c.f.storeHeader userPtr header' m.bytes⟩ block userPtr size' header'.state
      (c.f.sealed userPtr header') := by
  have before := holds.held.sizeStored
  refine ⟨holds.held.restore offset classId ?_ ?_, classId.trans holds.classId, rfl⟩
  · change _ ≤ block + c.f.classes.getSizeByClassId header.classId.toNat
    rw [holds.classId, c.classId_toNat]
    exact inside
  · exact ⟨classId ▸ before.1, classId ▸ before.2.1, stored⟩

end Holds

/-- The first words of a block lead to its last chunk. -/
theorem lastChunk_congr (first : ∀ x, block ≤ x → x < block + 8 → m'.bytes x = m.bytes x) :
    c.lastChunk m' block = c.lastChunk m block := by
  have marker : Chunk.load32 m'.bytes block = Chunk.load32 m.bytes block :=
    Chunk.load32_congr fun k lt => first (block + k) (by omega) (by omega)
  have value : Chunk.load32 m'.bytes (block + 4) = Chunk.load32 m.bytes (block + 4) :=
    Chunk.load32_congr fun k lt => first (block + 4 + k) (by omega) (by omega)
  have offset : c.f.getChunkOffsetFromBlock m'.bytes block =
      c.f.getChunkOffsetFromBlock m.bytes block := by
    unfold Setup.getChunkOffsetFromBlock
    rw [marker, value]
  unfold lastChunk Setup.getChunkFromBlock
  dsimp only
  rw [offset]

theorem lastHeader_eq (above : 16 ≤ c.lastChunk m block) (below : c.lastChunk m block < 2 ^ 64) :
    c.lastHeader m block = Chunk.unpack (Chunk.load64 m.bytes (c.lastChunk m block - 16)) := by
  have place : wsub c.f.p.word.bits (c.lastChunk m block) c.f.p.word.chunkHeaderSize =
      c.lastChunk m block - 16 := by
    rw [c.headerSize_eq, c.bits_eq, wsub_eq below above]
  rw [← place]
  rfl

theorem load64_zero {bytes : Nat → UInt8} {addr : Nat} (zero : ∀ x, addr ≤ x → x < addr + 8 → bytes x = 0) :
    Chunk.load64 bytes addr = 0 := by
  have same := @Chunk.load64_congr (fun _ => 0) bytes addr fun k lt => zero (addr + k) (by omega) (by omega)
  rw [same]
  unfold Chunk.load64 Chunk.load32
  dsimp only
  decide

/-- Zeros lead to where a chunk begins that is not shifted. -/
theorem lastChunk_zero (below : block + 16 < 2 ^ 64)
    (zero : ∀ x, block ≤ x → x < block + 8 → m.bytes x = 0) : c.lastChunk m block = block + 16 := by
  have word := load64_zero zero
  have unmarked : Chunk.load32 m.bytes block ≠ Chunk.blockMarker := by
    rw [Chunk.load32_of_load64, word]
    decide
  unfold lastChunk Setup.getChunkFromBlock Setup.getChunkOffsetFromBlock
  dsimp only
  have offset : wadd 64 0 16 = 16 := by decide
  rw [if_neg unmarked, c.headerSize_eq, c.bits_eq, offset, wadd_eq below]

/-- A header that was reclaimed has no size, and does not say that the chunk is zero. -/
theorem lastHeader_zero (above : 16 ≤ c.lastChunk m block) (below : c.lastChunk m block < 2 ^ 64)
    (zero : ∀ x, c.lastChunk m block - 16 ≤ x → x < c.lastChunk m block - 8 → m.bytes x = 0) :
    (c.lastHeader m block).sizeOrUnusedBytes = 0 ∧ (c.lastHeader m block).originOrWasZeroed = 0 := by
  rw [lastHeader_eq above below, load64_zero fun x low high => zero x low (by omega)]
  decide

theorem lastHeader_congr (above : 16 ≤ c.lastChunk m block) (below : c.lastChunk m block < 2 ^ 64)
    (same : c.lastChunk m' block = c.lastChunk m block)
    (front : ∀ x, c.lastChunk m block - 16 ≤ x → x < c.lastChunk m block - 8 → m'.bytes x = m.bytes x) :
    c.lastHeader m' block = c.lastHeader m block := by
  rw [lastHeader_eq (same ▸ above) (same ▸ below), lastHeader_eq above below, same]
  exact congrArg Chunk.unpack (Chunk.load64_congr fun k lt => front _ (by omega) (by omega))

end Words

/-- A block of the class. -/
structure IsBlock (block : Nat) : Prop where
  aligned : 16 ∣ block
  above : c.base ≤ block
  below : c.stop block + c.f.p.page.bytes ≤ 2 ^ 56

section Reusable

variable {c} {stray : Prop} {m m' : Memory} {block : Nat}

theorem IsBlock.stop_dvd (is : c.IsBlock block) : 16 ∣ c.stop block := Nat.dvd_add is.aligned c.granules

theorem IsBlock.room (c : Config) (block : Nat) : block + 32 ≤ c.stop block := by
  have least := c.blockSize_bounds.1
  unfold stop
  omega

/-- Where no header says anything, everything can be used again. -/
theorem reusable_of_empty (above : block + 16 ≤ c.lastChunk m block) (aligned : 16 ∣ c.lastChunk m block)
    (below : c.lastChunk m block ≤ c.stop block) (front : m.tagAt (c.lastChunk m block - 16) = 0)
    (empty : (c.lastHeader m block).sizeOrUnusedBytes = 0 ∧
      (c.lastHeader m block).originOrWasZeroed = 0) : c.Reusable stray m block := by
  obtain ⟨size, zeroed⟩ := empty
  have none_ : stopOf (c.lastChunk m block) (c.lastHeader m block).sizeOrUnusedBytes.toNat =
      c.lastChunk m block := by
    rw [size]
    exact stopOf_zero aligned
  refine ⟨above, aligned, ?_, front, fun x low high => ?_, fun _ wasZeroed => absurd zeroed wasZeroed⟩
  · rw [size]
    exact below
  · rw [none_] at high
    omega

/-- Where the header and the tag are gone, too. -/
theorem reusable_of_untagged (above : block + 16 ≤ c.lastChunk m block)
    (aligned : 16 ∣ c.lastChunk m block)
    (below : c.lastChunk m block + (c.lastHeader m block).sizeOrUnusedBytes.toNat ≤ c.stop block)
    (front : m.tagAt (c.lastChunk m block - 16) = 0) (untagged : m.tagAt (c.lastChunk m block) = 0)
    (zeroed : (c.lastHeader m block).originOrWasZeroed = 0) : c.Reusable stray m block :=
  ⟨above, aligned, below, front, fun _ _ _ tagged => absurd untagged tagged,
    fun _ wasZeroed => absurd zeroed wasZeroed⟩

theorem reusable_fresh (is : c.IsBlock block) (tags : m.tagAt block = 0)
    (zero : ∀ x, block ≤ x → x < block + 8 → m.bytes x = 0) : c.Reusable stray m block := by
  have room := IsBlock.room c block
  have below := is.below
  have aligned := is.aligned
  have chunk : c.lastChunk m block = block + 16 := lastChunk_zero (by omega) zero
  apply reusable_of_empty
  · rw [chunk]
  · rw [chunk]
    omega
  · rw [chunk]
    omega
  · rw [chunk, Nat.add_sub_cancel]
    exact tags
  · apply lastHeader_zero
    · omega
    · omega
    · intro x low high
      exact zero x (by omega) (by omega)

/-- Only the block matters. -/
theorem Reusable.congr (reusable : c.Reusable stray m block) (is : c.IsBlock block)
    (same : m.Same m' block (c.stop block)) : c.Reusable stray m' block := by
  have above := reusable.above
  have below := reusable.below
  have room := IsBlock.room c block
  have fits := is.below
  have chunk : c.lastChunk m' block = c.lastChunk m block :=
    lastChunk_congr fun x low high => same.bytes x low (by omega)
  have header : c.lastHeader m' block = c.lastHeader m block :=
    lastHeader_congr (by omega) (by omega) chunk fun x low high => same.bytes x (by omega) (by omega)
  have stop := stopOf_le is.stop_dvd below
  refine ⟨?_, ?_, ?_, ?_, fun x low high tagged => ?_, fun tame wasZeroed x low high => ?_⟩
  · rw [chunk]
    exact above
  · rw [chunk]
    exact reusable.aligned
  · rw [chunk, header]
    exact below
  · rw [chunk, same.tags _ (by omega) (by omega)]
    exact reusable.front
  · rw [chunk] at low high tagged ⊢
    rw [header] at high
    rw [same.tags _ (by omega) (by omega)] at tagged
    rw [same.tags x (by omega) (by omega), same.tags (c.lastChunk m block) (by omega) (by omega)]
    refine (reusable.tags x low high tagged).imp_right fun bare => ⟨?_, ?_⟩
    · intro y first last page
      rw [same.tags y first last]
      exact bare.here y first last page
    · intro y first last from_ to_
      rw [same.tags y first last]
      exact bare.inner y first last from_ to_
  · rw [chunk] at low high
    rw [header] at high wasZeroed
    rw [same.bytes x (by omega) (by omega)]
    exact reusable.zero tame wasZeroed x low high

end Reusable

section Reclaim

/-- Pages that the class gives back to the system are fresh when they are used again. -/
def reclaim (pages : Nat → Bool) (m : Memory) : Memory where
  tags := fun g => if c.base ≤ g * 16 ∧ pages (c.page (g * 16)) = true then 0 else m.tags g
  bytes := fun x => if c.base ≤ x ∧ pages (c.page x) = true then 0 else m.bytes x

variable {c} {stray : Prop} {m : Memory} {block x : Nat} {pages : Nat → Bool}

theorem base_dvd (c : Config) : 16 ∣ c.base ∧ 16 ∣ c.f.p.page.bytes := by
  have power : isPowerOfTwo 16 = true := by decide
  have atLeast := c.f.p.page.atLeast
  have page := isPowerOfTwo_dvd power c.f.p.page.power (by omega)
  exact ⟨page.trans c.paged, page⟩

/-- A granule is in one page. -/
theorem page_granule (x : Nat) : (c.base ≤ x / 16 * 16 ↔ c.base ≤ x) ∧ c.page (x / 16 * 16) = c.page x := by
  obtain ⟨⟨b, base⟩, ⟨q, page⟩⟩ := c.base_dvd
  unfold Config.page
  rw [base, page, ← Nat.div_div_eq_div_mul, ← Nat.div_div_eq_div_mul]
  have parts : (x / 16 * 16 - 16 * b) / 16 = (x - 16 * b) / 16 := by omega
  rw [parts]
  exact ⟨by omega, rfl⟩

theorem tagAt_reclaim : (c.reclaim pages m).tagAt x =
    if c.base ≤ x ∧ pages (c.page x) = true then 0 else m.tagAt x := by
  obtain ⟨from_, page⟩ := c.page_granule x
  exact if_congr (and_congr from_ (by rw [page])) rfl rfl

theorem bytes_reclaim : (c.reclaim pages m).bytes x =
    if c.base ≤ x ∧ pages (c.page x) = true then 0 else m.bytes x := rfl

/-- A word is in one page. -/
theorem page_word {a k : Nat} (aligned : 16 ∣ a) (less : k < 16) :
    c.page (a + k) = c.page a := by
  have one : (a + k) / 16 * 16 = a := by omega
  rw [← (c.page_granule (a + k)).2, one]

theorem reclaim_taken {a : Nat} (aligned : 16 ∣ a) (above : c.base ≤ a) (taken : pages (c.page a) = true) :
    (c.reclaim pages m).tagAt a = 0 ∧
      ∀ y, a ≤ y → y < a + 16 → (c.reclaim pages m).bytes y = 0 := by
  constructor
  · rw [tagAt_reclaim]
    exact if_pos ⟨above, taken⟩
  · intro y low high
    have page := page_word (c := c) aligned (by omega : y - a < 16)
    rw [Nat.add_sub_cancel' low] at page
    rw [bytes_reclaim, page]
    exact if_pos ⟨by omega, taken⟩

theorem reclaim_kept {a : Nat} (aligned : 16 ∣ a) (kept : pages (c.page a) = false) :
    (c.reclaim pages m).tagAt a = m.tagAt a ∧
      ∀ y, a ≤ y → y < a + 16 → (c.reclaim pages m).bytes y = m.bytes y := by
  have stays : ∀ y, a ≤ y → y < a + 16 → ¬(c.base ≤ y ∧ pages (c.page y) = true) := by
    rintro y low high ⟨-, taken⟩
    have page := page_word (c := c) aligned (by omega : y - a < 16)
    rw [Nat.add_sub_cancel' low] at page
    rw [page, kept] at taken
    cases taken
  constructor
  · rw [tagAt_reclaim]
    exact if_neg (stays a le_rfl (by omega))
  · intro y low high
    exact if_neg (stays y low high)

/-- When a page of a block is taken, so are those that lie in the block. -/
def TakesWhole (pages : Nat → Bool) (block : Nat) : Prop :=
  (∃ y, block ≤ y ∧ y < c.stop block ∧ pages (c.page y) = true) →
    ∀ y, block ≤ y → y < c.stop block → block ≤ c.base + c.page y * c.f.p.page.bytes →
      c.base + (c.page y + 1) * c.f.p.page.bytes ≤ c.stop block → pages (c.page y) = true

/-- A page of tags that is gone stays so. -/
theorem Bare.reclaim (bare : c.Bare m block x) : c.Bare (c.reclaim pages m) block x := by
  have zero : ∀ y, m.tagAt y = 0 → (c.reclaim pages m).tagAt y = 0 := by
    intro y gone
    rw [tagAt_reclaim, gone]
    split_ifs <;> rfl
  exact ⟨fun y first last page => zero y (bare.here y first last page),
    fun y first last from_ to_ => zero y (bare.inner y first last from_ to_)⟩

/-- What is left of a chunk after pages of its block were reclaimed, with its header or without. -/
theorem Reusable.reclaim (reusable : c.Reusable stray m block) (is : c.IsBlock block)
    (whole : c.TakesWhole pages block) : c.Reusable stray (c.reclaim pages m) block := by
  have above := reusable.above
  have below := reusable.below
  have room := IsBlock.room c block
  have fits := is.below
  have from_ := is.above
  have aligned := is.aligned
  have chunkAligned := reusable.aligned
  cases first : pages (c.page block) with
  | true =>
    -- the beginning of the block is zero, and leads to a chunk without a header
    obtain ⟨tag, zero⟩ := @reclaim_taken c m pages block aligned from_ first
    exact reusable_fresh is tag fun x low high => zero x low (by omega)
  | false =>
    obtain ⟨-, kept⟩ := @reclaim_kept c m pages block aligned first
    have chunk : c.lastChunk (c.reclaim pages m) block = c.lastChunk m block :=
      lastChunk_congr fun x low high => kept x low (by omega)
    cases front : pages (c.page (c.lastChunk m block - 16)) with
    | true =>
      obtain ⟨tag, zero⟩ := @reclaim_taken c m pages (c.lastChunk m block - 16) (by omega) (by omega) front
      apply reusable_of_empty
      · rw [chunk]
        exact above
      · rw [chunk]
        exact chunkAligned
      · rw [chunk]
        omega
      · rw [chunk]
        exact tag
      · apply lastHeader_zero
        · rw [chunk]
          omega
        · rw [chunk]
          omega
        · rw [chunk]
          intro x low high
          exact zero x low (by omega)
    | false =>
      obtain ⟨tag, same⟩ := @reclaim_kept c m pages (c.lastChunk m block - 16) (by omega) front
      have header : c.lastHeader (c.reclaim pages m) block = c.lastHeader m block :=
        lastHeader_congr (by omega) (by omega) chunk fun x low high => same x low (by omega)
      have stop := stopOf_le is.stop_dvd below
      refine ⟨?_, ?_, ?_, ?_, fun x low high tagged => ?_, fun tame wasZeroed x low high => ?_⟩
      · rw [chunk]
        exact above
      · rw [chunk]
        exact chunkAligned
      · rw [chunk, header]
        exact below
      · rw [chunk, tag]
        exact reusable.front
      · rw [chunk] at low high tagged ⊢
        rw [header] at high
        rw [tagAt_reclaim] at tagged
        split_ifs at tagged with gone
        · exact absurd rfl tagged
        · cases taken : pages (c.page x) with
          | true =>
            refine Or.inr ⟨fun y first last page => ?_, fun y first last inFront behind => ?_⟩
            · rw [tagAt_reclaim, page]
              exact if_pos ⟨by omega, taken⟩
            · rw [tagAt_reclaim]
              exact if_pos ⟨by omega, whole ⟨x, by omega, by omega, taken⟩ y first last inFront behind⟩
          | false =>
            rw [tagAt_reclaim, taken, if_neg (fun both => Bool.false_ne_true both.2), tagAt_reclaim,
              if_neg gone]
            exact (reusable.tags x low high tagged).imp_right Bare.reclaim
      · rw [chunk] at low high
        rw [header] at high wasZeroed
        rw [bytes_reclaim]
        split_ifs
        · rfl
        · exact reusable.zero tame wasZeroed x low high

end Reclaim

end Config

end Scudo.Tagging
