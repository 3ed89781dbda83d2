import Scudo.Tagging.Reuse

/-!
The operations on the chunk of one block: what each of them leaves in it.
-/

namespace Scudo.Tagging
open Scudo.Lib MemoryTags
open Scudo.Secondary (FillContentsMode memset memset_inside memset_outside)
open Scudo.Combined (Origin)
open Scudo.Frontend (Setup Checks Held allocated quarantined available originOf initChunk_held
  storeHeader_outside)

namespace Config

variable (c : Config)

/-- An allocated chunk: its header, its tags and the tags of its block. -/
structure Live (m : Memory) (tag userPtr size block : Nat) : Prop where
  nonzero : tag ≠ 0
  allowed : c.Allowed block tag
  tagged : c.Tagged m tag userPtr size block
  holds : ∃ header, c.Holds m block userPtr size allocated header

/-- What an operation on a block keeps. -/
structure Keeps (m m' : Memory) (block : Nat) : Prop where
  confined : m.Confined m' block (c.stop block)
  tags : c.AllowedTags m block → c.AllowedTags m' block
  first : m.tagAt block = 0 → m'.tagAt block = 0

variable {c} {m m' : Memory} {tag userPtr size block start : Nat} {header : Chunk.UnpackedHeader}
  {stray : Prop} {fill : FillContentsMode} {origin : Origin} {stack : Option (BitVec 32 × BitVec 32)}

section Allocate

/-- Without filling only the marker and the header are written. -/
theorem initChunk_words {bytes : Nat → UInt8} {a : Nat} (above : block + 16 ≤ userPtr)
    (below : userPtr < 2 ^ 56) (marker : a < block ∨ block + 8 ≤ a)
    (front : a < userPtr - 16 ∨ userPtr - 8 ≤ a) :
    (c.f.initChunk c.classId origin (.primary block) block userPtr size .noFill bytes).bytes a =
      bytes a := by
  have headerSize := c.headerSize_eq
  have bits := c.bits_eq
  unfold Setup.initChunk
  dsimp only
  have unfilled : ¬(c.classId ≠ 0 ∧ FillContentsMode.noFill ≠ .noFill) := fun both => both.2 rfl
  rw [if_neg unfilled, storeHeader_outside (by omega) (by rw [bits]; omega) (by omega)]
  split_ifs
  · unfold Chunk.store32
    rw [Chunk.store_outside _ (by omega), Chunk.store_outside _ (by omega)]
  · rfl

theorem storePrimaryAllocationStackMaybe_outside {bytes : Nat → UInt8} {a : Nat} (above : 8 ≤ userPtr)
    (outside : a < userPtr - 8 ∨ userPtr ≤ a) :
    storePrimaryAllocationStackMaybe stack userPtr bytes a = bytes a := by
  unfold storePrimaryAllocationStackMaybe
  cases stack with
  | none => rfl
  | some ids =>
    obtain ⟨trace, tid⟩ := ids
    unfold Chunk.store32
    dsimp only
    rw [Chunk.store_outside _ (by omega), Chunk.store_outside _ (by omega)]

/-- The header of a new chunk. -/
theorem initChunk_holds {bytes : Nat → UInt8} (is : c.IsBlock block)
    (placed : c.Placed block userPtr size)
    (stored : m.bytes =
      (c.f.initChunk c.classId origin (.primary block) block userPtr size .noFill bytes).bytes) :
    ∃ header, c.Holds m block userPtr size allocated header ∧
      header.originOrWasZeroed = originOf origin := by
  have headerSize := c.headerSize_eq
  have minAlignment := c.minAlignment_eq
  have bits := c.bits_eq
  obtain ⟨least, most⟩ := c.blockSize_bounds
  have below := is.below
  have inside := placed.inside
  have stop : c.stop block = block + c.f.classes.getSizeByClassId c.classId := rfl
  have roomy : c.stop block = block + c.blockSize := rfl
  have fits : size < 2 ^ 20 := by
    have above := placed.above
    omega
  have class_ := c.classId_toNat
  have nonzero : BitVec.ofNat 8 c.classId ≠ 0 := by
    intro zero
    have positive := c.classId_pos
    rw [← class_, zero] at positive
    exact absurd positive (by decide)
  have held := @initChunk_held c.f size bytes c.classId block userPtr size origin (.primary block) .noFill
    rfl (by rw [headerSize]; exact placed.above) (by rw [minAlignment]; exact placed.aligned)
    (by rw [minAlignment]; exact is.aligned) (by rw [headerSize, minAlignment]; omega)
    (by
      change _ ≤ block + c.f.classes.getSizeByClassId (BitVec.ofNat 8 c.classId).toNat
      rw [class_, ← stop]
      exact inside)
    (by
      change block + c.f.classes.getSizeByClassId (BitVec.ofNat 8 c.classId).toNat < _
      rw [class_, ← stop, bits]
      omega)
    ⟨nonzero, by
      change c.f.classes.getSizeByClassId (BitVec.ofNat 8 c.classId).toNat ≤ _
      rw [class_]
      exact most.le, by
      change (BitVec.ofNat 20 size).toNat = size
      rw [BitVec.toNat_ofNat]
      exact Nat.mod_eq_of_lt fits⟩
  refine ⟨c.f.sealed userPtr (c.f.initHeader c.classId origin block userPtr size), ⟨?_, rfl, rfl⟩, rfl⟩
  rw [stored]
  exact held

/-- A block with any past gets a chunk. -/
theorem initChunkWithMemoryTagging_live (reusable : c.Reusable stray m block) (is : c.IsBlock block)
    (placed : c.Placed block userPtr size) (allowed : c.AllowedTags m block)
    (edge : m.tagAt (c.stop block) = 0)
    (made : c.initChunkWithMemoryTagging start m origin stack block userPtr size fill = (m', tag)) :
    ∃ t, tag = pointer t userPtr ∧ c.Live m' t userPtr size block ∧ c.Keeps m m' block ∧
      (¬stray → fill ≠ .noFill → ∀ x, userPtr ≤ x → x < userPtr + size → m'.bytes x = 0) := by
  obtain ⟨t, ptr, prepared⟩ := @tagChunk_prepared c stray fill m block userPtr size start reusable is placed
    allowed edge
  unfold initChunkWithMemoryTagging at made
  obtain ⟨rfl, rfl⟩ := Prod.mk.inj made
  generalize c.tagChunk start m block userPtr size fill = chunk at *
  have above := placed.above
  have below := is.below
  have inside := placed.inside
  have positive := c.f.p.page.pos
  have words : ∀ x, x < block ∨ block + 8 ≤ x → x < userPtr - 16 ∨ userPtr ≤ x →
      (c.f.initChunk c.classId origin (.primary block) block userPtr size .noFill
        (storePrimaryAllocationStackMaybe stack userPtr chunk.1.bytes)).bytes x = chunk.1.bytes x := by
    intro x first front
    rw [initChunk_words above (by omega) first (by omega),
      storePrimaryAllocationStackMaybe_outside (by omega) (by omega)]
  obtain ⟨nonzero, tagAllowed, tagged, -, confined, tags, first, zero⟩ := prepared
  have aligned := placed.aligned
  refine ⟨t, ptr, ⟨nonzero, tagAllowed, ⟨tagged.front, tagged.inside, tagged.behind, ?_⟩,
    (initChunk_holds is placed rfl).imp fun _ => And.left⟩, ⟨⟨confined.tags, ?_⟩, ?_, first⟩, ?_⟩
  · intro empty before
    exact (words userPtr (by omega) (by omega)).trans (tagged.empty empty before)
  · intro x outside
    exact (words x (by omega) (by omega)).trans (confined.bytes x outside)
  · intro old x low high
    rcases tags x with same | gone | new
    · exact same ▸ old x low high
    · exact Or.inl gone
    · exact Or.inr (new ▸ tagAllowed)
  · intro tame filled x low high
    exact (words x (by omega) (by omega)).trans (zero tame filled x low high)

end Allocate

section Headers

/-- A header at a chunk of a block. -/
theorem storeHeader_confined (above : block + 16 ≤ userPtr) (below : userPtr < 2 ^ 56) {x : Nat}
    (outside : x < userPtr - 16 ∨ userPtr - 8 ≤ x) :
    c.f.storeHeader userPtr header m.bytes x = m.bytes x := by
  have headerSize := c.headerSize_eq
  have bits := c.bits_eq
  exact storeHeader_outside (by omega) (by rw [bits]; omega) (by omega)

theorem storeHeader_keeps (above : block + 16 ≤ userPtr) (inside : userPtr ≤ c.stop block)
    (below : c.stop block < 2 ^ 56) : c.Keeps m ⟨m.tags, c.f.storeHeader userPtr header m.bytes⟩ block :=
  ⟨⟨fun _ _ => rfl, fun _ _ => storeHeader_confined above (by omega) (by omega)⟩, id, id⟩

theorem Keeps.trans {m'' : Memory} (first : c.Keeps m m' block) (second : c.Keeps m' m'' block) :
    c.Keeps m m'' block :=
  ⟨first.confined.trans second.confined, fun old => second.tags (first.tags old),
    fun old => second.first (first.first old)⟩

/-- The tags do not change, and the header of the chunk changes its state only. -/
theorem Reusable.restate {header' : Chunk.UnpackedHeader} {state state' : BitVec 2}
    (reusable : c.Reusable stray m block) (is : c.IsBlock block)
    (before : c.Holds m block userPtr size state header) (known : state ≠ 3)
    (after : c.Holds ⟨m.tags, c.f.storeHeader userPtr header' m.bytes⟩ block userPtr size state'
      (c.f.sealed userPtr header')) (known' : state' ≠ 3)
    (zeroed : header'.originOrWasZeroed = header.originOrWasZeroed) :
    c.Reusable stray ⟨m.tags, c.f.storeHeader userPtr header' m.bytes⟩ block := by
  obtain ⟨chunk, last⟩ := before.last known
  obtain ⟨chunk', last'⟩ := after.last known'
  obtain ⟨above, inside, -, -, aligned⟩ := before.bounds
  have below := is.below
  have positive := c.f.p.page.pos
  obtain ⟨-, -, -, front, tags, zero⟩ := reusable
  rw [chunk] at front tags zero
  rw [last, before.size_eq] at tags zero
  refine ⟨?_, ?_, ?_, ?_, ?_, ?_⟩
  · rw [chunk']
    exact above
  · rw [chunk']
    exact aligned
  · rw [chunk', last', after.size_eq]
    exact inside
  · rw [chunk']
    exact front
  · rw [chunk', last', after.size_eq]
    exact fun x low high tagged => (tags x low high tagged).imp_right fun bare => ⟨bare.here, bare.inner⟩
  · rw [chunk', last', after.size_eq]
    intro tame wasZeroed x low high
    have written := @storeHeader_confined c m userPtr block header' above (by omega) x (by omega)
    exact written.trans (zero tame (zeroed ▸ wasZeroed) x low high)

end Headers

section Release

/-- A chunk gets another tag. -/
theorem retag_eq {prevTag blockBegin : Nat} (aligned : 16 ∣ userPtr)
    (inside : userPtr + size ≤ c.stop block) (below : c.stop block < 2 ^ 56) :
    ∃ tag, tag ≠ 0 ∧ tag ≠ prevTag ∧ c.Allowed blockBegin tag ∧
      (setRandomTag c.dczid start m userPtr size
        (c.computeOddEvenMaskForPointerMaybe blockBegin ||| 1 <<< prevTag)).1 =
          m.fill tag userPtr (stopOf userPtr size) := by
  obtain ⟨tag, nonzero, other, allowed, chosen⟩ :=
    @selectRandomTag_other c start blockBegin prevTag userPtr (by omega)
  refine ⟨tag, nonzero, other, allowed, ?_⟩
  have reach := (stopOf_bounds userPtr size).2.1
  have whole : max userPtr (roundUpSlow (userPtr + size) 16) = stopOf userPtr size :=
    max_eq_right (le_trans (Nat.le_add_right _ _) reach)
  have filled := @storeTags_eq c.dczid tag userPtr (userPtr + size) m c.lines allowed.1 aligned (by omega)
  rw [whole, ← pointer_add, ← chosen] at filled
  exact congrArg Prod.fst filled

/-- The fields of the header that a release stores. -/
structure Released (checks : Checks) (header header' : Chunk.UnpackedHeader) (size : Nat)
    (disableMemInit bypass : Bool) : Prop where
  offset : header'.offset = header.offset
  classId : header'.classId = header.classId
  size : header'.sizeOrUnusedBytes = header.sizeOrUnusedBytes
  state : header'.state = if bypass = true then available else quarantined
  zeroed : header'.originOrWasZeroed =
    if header.classId ≠ 0 ∧ disableMemInit = false then 1 else 0
  bypasses : checks.quarantineCacheSize = 0 → bypass = true

theorem quarantineOrDeallocateChunk_eq {checks : Checks} {taggedPtr prevTag : Nat} {disableMemInit : Bool}
    (untagged : untagPointer taggedPtr = userPtr) (tagged : extractTag taggedPtr = prevTag) :
    ∃ header' bypass, Released checks header header' size disableMemInit bypass ∧
      c.quarantineOrDeallocateChunk checks start m taggedPtr header size disableMemInit =
        (if header.classId ≠ 0 ∧ disableMemInit = false then
          (setRandomTag c.dczid start ⟨m.tags, c.f.storeHeader userPtr header' m.bytes⟩ userPtr size
            (c.computeOddEvenMaskForPointerMaybe (c.f.getBlockBegin userPtr header') |||
              1 <<< prevTag)).1
          else ⟨m.tags, c.f.storeHeader userPtr header' m.bytes⟩,
        if bypass = true then some (c.f.getBlockBegin userPtr header') else none) := by
  subst untagged tagged
  by_cases bypass : checks.quarantineCacheSize = 0 ∨
      checks.quarantineMaxChunkSize ≤ wsub c.f.p.word.bits size 1 ∨ header.classId = 0
  · refine ⟨{ header with
      state := available
      originOrWasZeroed := if header.classId ≠ 0 ∧ disableMemInit = false then 1 else 0 }, true,
      ⟨rfl, rfl, rfl, rfl, rfl, fun _ => rfl⟩, ?_⟩
    unfold quarantineOrDeallocateChunk retagBlock
    dsimp only
    rw [if_pos bypass, if_pos bypass, if_pos rfl]
    split_ifs <;> rfl
  · refine ⟨{ header with
      state := quarantined
      originOrWasZeroed := if header.classId ≠ 0 ∧ disableMemInit = false then 1 else 0 }, false,
      ⟨rfl, rfl, rfl, rfl, rfl, fun off => absurd (Or.inl off) bypass⟩, ?_⟩
    unfold quarantineOrDeallocateChunk retagBlock
    dsimp only
    rw [if_neg bypass, if_neg bypass, if_neg Bool.false_ne_true]
    split_ifs <;> rfl

/-- Past the checks. -/
theorem deallocate_cases {checks : Checks} {ptr deleteSize : Nat} {disableMemInit : Bool}
    {result : Memory × Option Nat} (untagged : untagPointer ptr = userPtr)
    (loads : c.f.loadHeader userPtr m.bytes = some header)
    (run : c.deallocate checks start m ptr origin deleteSize disableMemInit = some result) :
    c.quarantineOrDeallocateChunk checks start m ptr header header.sizeOrUnusedBytes.toNat disableMemInit =
      result := by
  subst untagged
  unfold deallocate at run
  rw [loads] at run
  dsimp only at run
  split_ifs at run
  exact Option.some.inj run

/-- Without the check of its origin, the release of an allocated chunk is never reported. -/
theorem deallocate_returns {checks : Checks} {disableMemInit : Bool}
    (live : c.Live m tag userPtr size block) (is : c.IsBlock block)
    (lenient : checks.deallocTypeMismatch = false) :
    ∃ mem freed, c.deallocate checks start m (pointer tag userPtr) origin 0 disableMemInit =
      some (mem, freed) ∧ (checks.quarantineCacheSize = 0 → freed ≠ none) := by
  obtain ⟨-, tagAllowed, -, header, holds⟩ := live
  obtain ⟨above, inside, -, -, aligned⟩ := holds.bounds
  have below := is.below
  have positive := c.f.p.page.pos
  have untagged : untagPointer (pointer tag userPtr) = userPtr := untagPointer_pointer (by omega)
  have divides : c.f.p.word.minAlignment ∣ pointer tag userPtr := by
    rw [c.minAlignment_eq]
    exact (dvd_pointer (by decide)).mpr aligned
  obtain ⟨header', bypass, released, made⟩ :=
    @quarantineOrDeallocateChunk_eq c m userPtr header.sizeOrUnusedBytes.toNat start header checks
      (pointer tag userPtr) tag disableMemInit untagged (extractTag_pointer tagAllowed.1 (by omega))
  have ran : c.deallocate checks start m (pointer tag userPtr) origin 0 disableMemInit =
      some (c.quarantineOrDeallocateChunk checks start m (pointer tag userPtr) header
        header.sizeOrUnusedBytes.toNat disableMemInit) := by
    unfold deallocate
    rw [if_neg (not_not.mpr divides), untagged, holds.loads]
    dsimp only
    rw [if_neg (not_not.mpr holds.state), if_neg (fun both => by rw [lenient] at both; cases both.1),
      if_neg (fun both => both.1 rfl)]
  rw [made] at ran
  refine ⟨_, _, ran, fun off => ?_⟩
  rw [if_pos (released.bypasses off)]
  exact Option.some_ne_none _

/-- What a released chunk leaves: its block can be used again, with the header of the quarantine unless
the block was given back, and the pointer has lost its tag unless retagging was off for the thread. -/
theorem deallocate_live {checks : Checks} {deleteSize : Nat} {disableMemInit : Bool} {freed : Option Nat}
    (live : c.Live m tag userPtr size block) (is : c.IsBlock block)
    (run : c.deallocate checks start m (pointer tag userPtr) origin deleteSize disableMemInit =
      some (m', freed)) :
    c.Keeps m m' block ∧ c.Reusable stray m' block ∧
      (freed = none → ∃ header, c.Holds m' block userPtr size quarantined header) ∧
      (∀ b, freed = some b → b = block) ∧
      (disableMemInit = false → ∀ x, userPtr ≤ x → x < stopOf userPtr size → m'.tagAt x ≠ tag) := by
  obtain ⟨-, tagAllowed, tagged, header, holds⟩ := live
  obtain ⟨above, inside, -, -, aligned⟩ := holds.bounds
  have below := is.below
  have positive := c.f.p.page.pos
  have last := stopOf_le is.stop_dvd inside
  obtain ⟨stopAligned, reach, -⟩ := stopOf_bounds userPtr size
  have ran := deallocate_cases (untagPointer_pointer (by omega)) holds.loads run
  obtain ⟨header', bypass, released, made⟩ :=
    @quarantineOrDeallocateChunk_eq c m userPtr header.sizeOrUnusedBytes.toNat start header checks
      (pointer tag userPtr) tag disableMemInit (untagPointer_pointer (by omega))
      (extractTag_pointer tagAllowed.1 (by omega))
  rw [made, holds.size_eq] at ran
  obtain ⟨same, freed_eq⟩ := Prod.mk.inj ran
  have holds' := holds.store released.offset released.classId inside
    ((congrArg BitVec.toNat released.size).trans holds.size_eq)
  have known : header'.state ≠ 3 := by
    rw [released.state]
    cases bypass <;> decide
  have begins : c.f.getBlockBegin userPtr header' = block := holds'.getBlockBegin_eq
  have stored := @storeHeader_keeps c m userPtr block header' above (by omega) (by omega)
  have zeroed := released.zeroed
  -- the last chunk, whatever its granules are then
  have reusable : ∀ m'', c.Holds m'' block userPtr size header'.state (c.f.sealed userPtr header') →
      m''.tagAt (userPtr - 16) = 0 →
      (∀ t, m''.tagAt userPtr = t → ∀ x, userPtr ≤ x → x < stopOf userPtr size → m''.tagAt x = t) →
      (header'.originOrWasZeroed ≠ 0 →
        ∀ x, userPtr ≤ x → x < stopOf userPtr size → m''.bytes x = 0) → c.Reusable stray m'' block := by
    intro m'' held front tags zero
    obtain ⟨chunk, sealed_⟩ := held.last known
    refine ⟨?_, ?_, ?_, ?_, ?_, ?_⟩
    · rw [chunk]
      exact above
    · rw [chunk]
      exact aligned
    · rw [chunk, sealed_, held.size_eq]
      exact inside
    · rw [chunk]
      exact front
    · rw [chunk, sealed_, held.size_eq]
      exact fun x low high _ => Or.inl (tags _ rfl x low high)
    · rw [chunk, sealed_, held.size_eq]
      exact fun _ wasZeroed => zero wasZeroed
  rw [begins] at same freed_eq
  have given : (freed = none → header'.state = quarantined) ∧ ∀ b, freed = some b → b = block := by
    rw [← freed_eq, released.state]
    cases bypass with
    | true => exact ⟨fun none_ => (by cases none_), fun b gives => (Option.some.inj gives).symm⟩
    | false => exact ⟨fun _ => rfl, fun b gives => (by cases gives)⟩
  cases disableMemInit with
  | true =>
    rw [if_neg (fun both => Bool.noConfusion both.2)] at same zeroed
    subst same
    refine ⟨stored, reusable _ holds' tagged.front ?_ fun wasZeroed => absurd zeroed wasZeroed,
      fun waits => ⟨_, given.1 waits ▸ holds'⟩, given.2, fun off => by cases off⟩
    intro t here x low high
    rw [← here]
    exact (tagged.inside x low high).trans (tagged.inside userPtr le_rfl (by omega)).symm
  | false =>
    obtain ⟨tag', -, other, allowed', retagged⟩ := @retag_eq c
      ⟨m.tags, c.f.storeHeader userPtr header' m.bytes⟩ userPtr size block start tag block aligned inside
      (by omega)
    rw [if_pos ⟨holds.classId_ne, rfl⟩, retagged] at same
    subst same
    have outside : ∀ x, x < userPtr ∨ stopOf userPtr size ≤ x →
        (Memory.fill ⟨m.tags, c.f.storeHeader userPtr header' m.bytes⟩ tag' userPtr
          (stopOf userPtr size)).tagAt x = m.tagAt x :=
      fun x out => tagAt_fill_outside aligned stopAligned out
    have bytes : ∀ x, x < userPtr ∨ stopOf userPtr size ≤ x →
        (Memory.fill ⟨m.tags, c.f.storeHeader userPtr header' m.bytes⟩ tag' userPtr
          (stopOf userPtr size)).bytes x = c.f.storeHeader userPtr header' m.bytes x :=
      fun x out => bytes_fill_outside out
    have new : ∀ x, userPtr ≤ x → x < stopOf userPtr size →
        (Memory.fill ⟨m.tags, c.f.storeHeader userPtr header' m.bytes⟩ tag' userPtr
          (stopOf userPtr size)).tagAt x = tag' :=
      fun x low high => tagAt_fill_inside aligned stopAligned low high
    have zero : ∀ x, userPtr ≤ x → x < stopOf userPtr size →
        (Memory.fill ⟨m.tags, c.f.storeHeader userPtr header' m.bytes⟩ tag' userPtr
          (stopOf userPtr size)).bytes x = 0 := fun x low high => bytes_fill_inside low high
    generalize Memory.fill ⟨m.tags, c.f.storeHeader userPtr header' m.bytes⟩ tag' userPtr
      (stopOf userPtr size) = m' at *
    have holds'' : c.Holds m' block userPtr size header'.state (c.f.sealed userPtr header') :=
      holds'.congr (fun x _ high => bytes x (by omega)) fun x _ high => bytes x (by omega)
    refine ⟨stored.trans ⟨⟨fun x out => outside x (by omega), fun x out => bytes x (by omega)⟩, ?_, ?_⟩,
      reusable _ holds'' ?_ ?_ fun _ => zero, fun waits => ⟨_, given.1 waits ▸ holds''⟩, given.2, ?_⟩
    · intro old x low high
      by_cases out : x < userPtr ∨ stopOf userPtr size ≤ x
      · rw [outside x out]
        exact old x low high
      · rw [new x (by omega) (by omega)]
        exact Or.inr allowed'
    · intro first
      rw [outside block (by omega)]
      exact first
    · rw [outside _ (by omega)]
      exact tagged.front
    · intro t here x low high
      rw [← here, new x low high, new userPtr le_rfl (by omega)]
    · intro _ x low high
      rw [new x low high]
      exact other

/-- A block comes back from the quarantine. -/
theorem recycle_reusable {b : Nat} (reusable : c.Reusable stray m block) (is : c.IsBlock block)
    (holds : c.Holds m block userPtr size quarantined header)
    (run : c.recycle m userPtr = some (m', b)) :
    c.Keeps m m' block ∧ c.Reusable stray m' block ∧ b = block ∧ m'.tags = m.tags := by
  obtain ⟨above, inside, -⟩ := holds.bounds
  have below := is.below
  have positive := c.f.p.page.pos
  unfold recycle at run
  rw [holds.loads] at run
  dsimp only at run
  rw [if_neg (not_not.mpr holds.state)] at run
  obtain ⟨rfl, rfl⟩ := Prod.mk.inj (Option.some.inj run)
  have untagged : untagPointer userPtr = userPtr := by
    have whole := @untagPointer_pointer 0 userPtr (by omega)
    rwa [pointer_zero] at whole
  have holds' := @Holds.store c m block userPtr size quarantined header holds
    { header with state := available } size rfl rfl inside holds.size_eq
  have known : available ≠ 3 := by decide
  refine ⟨storeHeader_keeps above (by omega) (by omega),
    reusable.restate is holds (by decide) holds' known rfl, ?_, rfl⟩
  rw [untagged]
  exact holds'.getBlockBegin_eq

end Release

section Batches

/-- The header of a batch is that of a chunk with its size. -/
theorem allocateBatch_eq {batchSize : Nat} (is : c.IsBlock block) :
    c.allocateBatch m block batchSize =
      ((storeTags c.dczid ⟨m.tags, (c.f.initChunk c.classId .malloc (.primary block) block (block + 16)
        batchSize .noFill m.bytes).bytes⟩ (block + 16) (block + 16 + batchSize)).1, block + 16) := by
  have below := is.below
  have room := IsBlock.room c block
  have default : wadd c.f.p.word.bits block 16 = block + 16 := by
    rw [c.bits_eq]
    exact wadd_eq (by omega)
  unfold allocateBatch Setup.initChunk Setup.initHeader
  rw [c.headerSize_eq, default]
  simp only [ne_eq, not_true_eq_false, and_false, if_false]
  rfl

/-- The quarantine takes a block for one of its batches, and gets it without tags. -/
theorem allocateBatch_holds {batchSize ptr : Nat} (is : c.IsBlock block)
    (fits : block + 16 + batchSize ≤ c.stop block)
    (made : c.allocateBatch m block batchSize = (m', ptr)) :
    ptr = block + 16 ∧ c.Keeps m m' block ∧
      (∃ header, c.Holds m' block (block + 16) batchSize allocated header ∧
        header.originOrWasZeroed = 0) ∧
      ∀ x, block + 16 ≤ x → x < block + 16 + batchSize → m'.tagAt x = 0 := by
  have below := is.below
  have positive := c.f.p.page.pos
  have aligned := is.aligned
  rw [allocateBatch_eq is] at made
  obtain ⟨rfl, rfl⟩ := Prod.mk.inj made
  obtain ⟨stopAligned, reach, -⟩ := stopOf_bounds (block + 16) batchSize
  have last := stopOf_le is.stop_dvd fits
  have whole : max (block + 16) (roundUpSlow (block + 16 + batchSize) 16) = stopOf (block + 16) batchSize :=
    max_eq_right (le_trans (Nat.le_add_right _ _) reach)
  obtain ⟨stored, stored_eq⟩ : ∃ stored, stored = (c.f.initChunk c.classId .malloc (.primary block) block
    (block + 16) batchSize .noFill m.bytes).bytes := ⟨_, rfl⟩
  obtain ⟨header, holds, zeroed⟩ := @initChunk_holds c ⟨m.tags, stored⟩ (block + 16) batchSize block .malloc
    m.bytes is ⟨le_rfl, by omega, fits⟩ stored_eq
  have words : ∀ x, x < block ∨ block + 8 ≤ x → stored x = m.bytes x := by
    intro x outside
    rw [stored_eq]
    exact initChunk_words le_rfl (by omega) outside (by omega)
  have filled := @storeTags_eq c.dczid 0 (block + 16) (block + 16 + batchSize) ⟨m.tags, stored⟩ c.lines
    (by decide) (by omega) (by omega)
  rw [whole, pointer_zero, pointer_zero] at filled
  rw [← stored_eq, filled]
  have outside : ∀ x, x < block + 16 ∨ stopOf (block + 16) batchSize ≤ x →
      (Memory.fill ⟨m.tags, stored⟩ 0 (block + 16) (stopOf (block + 16) batchSize)).tagAt x = m.tagAt x :=
    fun x out => tagAt_fill_outside (by omega) stopAligned out
  have bytes : ∀ x, x < block + 16 ∨ stopOf (block + 16) batchSize ≤ x →
      (Memory.fill ⟨m.tags, stored⟩ 0 (block + 16) (stopOf (block + 16) batchSize)).bytes x = stored x :=
    fun x out => bytes_fill_outside out
  have new : ∀ x, block + 16 ≤ x → x < stopOf (block + 16) batchSize →
      (Memory.fill ⟨m.tags, stored⟩ 0 (block + 16) (stopOf (block + 16) batchSize)).tagAt x = 0 :=
    fun x low high => tagAt_fill_inside (by omega) stopAligned low high
  refine ⟨rfl, ⟨⟨fun x out => outside x (by omega), fun x out => ?_⟩, fun old x low high => ?_,
    fun first => ?_⟩, ⟨header, holds.congr ?_ ?_, zeroed⟩, fun x low high => new x low (by omega)⟩
  · exact (bytes x (by omega)).trans (words x (by omega))
  · by_cases out : x < block + 16 ∨ stopOf (block + 16) batchSize ≤ x
    · rw [outside x out]
      exact old x low high
    · exact Or.inl (new x (by omega) (by omega))
  · rw [outside block (by omega)]
    exact first
  · exact fun x _ high => bytes x (by omega)
  · exact fun x _ high => bytes x (by omega)

/-- The block of a batch can be used again; it has no tags where the next chunk may begin. -/
theorem deallocateBatch_reusable {batchSize b : Nat} (is : c.IsBlock block) (some_ : 0 < batchSize)
    (holds : c.Holds m block (block + 16) batchSize allocated header)
    (zeroed : header.originOrWasZeroed = 0) (first : m.tagAt block = 0)
    (untagged : ∀ x, block + 16 ≤ x → x < block + 16 + batchSize → m.tagAt x = 0)
    (run : c.deallocateBatch m (block + 16) = some (m', b)) :
    b = block ∧ c.Keeps m m' block ∧ c.Reusable stray m' block := by
  obtain ⟨-, inside, -⟩ := holds.bounds
  have below := is.below
  have positive := c.f.p.page.pos
  have aligned := is.aligned
  unfold deallocateBatch at run
  rw [holds.loads] at run
  dsimp only at run
  rw [if_neg (not_not.mpr holds.state), c.headerSize_eq, Nat.add_sub_cancel] at run
  obtain ⟨rfl, rfl⟩ := Prod.mk.inj (Option.some.inj run)
  have holds' := @Holds.store c m block (block + 16) batchSize allocated header holds
    { header with state := available } batchSize rfl rfl inside holds.size_eq
  have known : available ≠ 3 := by decide
  obtain ⟨chunk, last⟩ := holds'.last known
  refine ⟨rfl, storeHeader_keeps le_rfl (by omega) (by omega), ?_⟩
  apply reusable_of_untagged
  · rw [chunk]
  · rw [chunk]
    omega
  · rw [chunk, last, holds'.size_eq]
    exact inside
  · rw [chunk, Nat.add_sub_cancel]
    exact first
  · rw [chunk]
    exact untagged _ le_rfl (by omega)
  · rw [last]
    exact zeroed

end Batches

section Resize

theorem getBlockBegin_pointer (holds : c.Holds m block userPtr size allocated header)
    (is : c.IsBlock block) (small : tag < 16) :
    c.f.getBlockBegin (pointer tag userPtr) header = pointer tag block := by
  have place := holds.held.place
  obtain ⟨above, inside, -⟩ := holds.bounds
  have below := is.below
  change userPtr = block + _ + _ at place
  rw [c.headerSize_eq, c.minAlignment_eq] at place
  have first : wsub 64 (userPtr + tag * 2 ^ 56) 16 = userPtr - 16 + tag * 2 ^ 56 := by
    rw [wsub_eq (by omega) (by omega)]
    omega
  unfold Setup.getBlockBegin pointer
  rw [c.headerSize_eq, c.minAlignment_eq, c.bits_eq, first, wrap_eq (by omega),
    wsub_eq (by omega) (by omega)]
  omega

/-- Past the checks, where the block is kept. -/
theorem reallocateInPlace_cases {checks : Checks} {ptr blockEnd newSize : Nat}
    (untagged : untagPointer ptr = userPtr) (loads : c.f.loadHeader userPtr m.bytes = some header)
    (ends : c.f.getBlockBegin ptr header + c.f.classes.getSizeByClassId header.classId.toNat = blockEnd)
    (run : c.reallocateInPlace checks m ptr newSize fill stack = some m') :
    newSize < c.f.p.word.maxAllowedMallocSize ∧ ptr + newSize ≤ blockEnd ∧ ∃ bytes after,
      (∀ x, x < userPtr ∨ userPtr + header.sizeOrUnusedBytes.toNat ≤ x → bytes x = m.bytes x) ∧
      c.resizeTaggedChunk ⟨m.tags, c.f.storeHeader userPtr
          { header with sizeOrUnusedBytes := BitVec.ofNat 20 newSize } bytes⟩
        (ptr + header.sizeOrUnusedBytes.toNat) (ptr + newSize) newSize (untagPointer blockEnd) = after ∧
      m' = ⟨after.tags, storePrimaryAllocationStackMaybe stack userPtr after.bytes⟩ := by
  subst untagged ends
  unfold reallocateInPlace at run
  dsimp only at run
  rw [loads] at run
  dsimp only at run
  split_ifs at run with big misaligned state mismatch stays shrinks
  · refine ⟨Nat.not_le.mp big, stays.1, _, _, fun x outside => ?_, rfl, (Option.some.inj run).symm⟩
    exact memset_outside _ _ _ _ _ (by omega)
  · exact ⟨Nat.not_le.mp big, stays.1, _, _, fun _ _ => rfl, rfl, (Option.some.inj run).symm⟩

/-- A chunk that keeps its block when its size changes. -/
theorem reallocateInPlace_live {checks : Checks} {newSize : Nat}
    (live : c.Live m tag userPtr size block) (is : c.IsBlock block)
    (run : c.reallocateInPlace checks m (pointer tag userPtr) newSize fill stack = some m') :
    c.Live m' tag userPtr newSize block ∧ c.Keeps m m' block := by
  obtain ⟨nonzero, tagAllowed, tagged, header, holds⟩ := live
  obtain ⟨above, inside, -, -, aligned⟩ := holds.bounds
  have below := is.below
  have positive := c.f.p.page.pos
  have stopDvd := is.stop_dvd
  have page16 : 16 ≤ c.f.p.page.bytes := Nat.le_of_dvd positive c.base_dvd.2
  have ends : c.f.getBlockBegin (pointer tag userPtr) header +
      c.f.classes.getSizeByClassId header.classId.toNat = pointer tag (c.stop block) := by
    rw [getBlockBegin_pointer holds is tagAllowed.1, holds.classId, c.classId_toNat, pointer_add]
    rfl
  obtain ⟨-, fits, bytes, after, kept, resized, rfl⟩ :=
    reallocateInPlace_cases (untagPointer_pointer (by omega)) holds.loads ends run
  rw [pointer_add, pointer_le_iff] at fits
  rw [holds.size_eq] at kept
  rw [holds.size_eq, pointer_add, pointer_add, untagPointer_pointer (by omega)] at resized
  have last := stopOf_le stopDvd fits
  obtain ⟨stopAligned, reach, close⟩ := stopOf_bounds userPtr newSize
  have oldLast := stopOf_le stopDvd inside
  have oldReach := (stopOf_bounds userPtr size).2.1
  have oldStop : stopOf userPtr size = roundUpSlow (userPtr + size) 16 := rfl
  obtain ⟨tags, rest⟩ := @resizeTaggedChunk_reads c
    ⟨m.tags, c.f.storeHeader userPtr { header with sizeOrUnusedBytes := BitVec.ofNat 20 newSize } bytes⟩
    tag userPtr newSize (c.stop block) (userPtr + size) tagAllowed.1 (by omega) (by omega) stopAligned
  rw [resized, ← oldStop] at tags rest
  have small : newSize < 2 ^ 20 := by
    have most := c.blockSize_bounds.2
    have room : c.stop block = block + c.blockSize := rfl
    omega
  -- the header, in the memory that the user range was filled in
  have filled : c.Holds ⟨m.tags, bytes⟩ block userPtr size allocated header :=
    holds.congr (fun x _ high => kept x (by omega)) fun x _ high => kept x (by omega)
  have holds' := @Holds.store c ⟨m.tags, bytes⟩ block userPtr size allocated header filled
    { header with sizeOrUnusedBytes := BitVec.ofNat 20 newSize } newSize rfl rfl fits
    (by rw [BitVec.toNat_ofNat]; exact Nat.mod_eq_of_lt small)
  have untracked : ∀ x, x < userPtr - 8 ∨ userPtr ≤ x →
      storePrimaryAllocationStackMaybe stack userPtr after.bytes x = after.bytes x :=
    fun x outside => storePrimaryAllocationStackMaybe_outside (by omega) outside
  have front : ∀ x, x < userPtr - 8 → after.bytes x = c.f.storeHeader userPtr
      { header with sizeOrUnusedBytes := BitVec.ofNat 20 newSize } bytes x := by
    intro x low
    rw [rest, if_neg (by omega), if_neg (by omega)]
  have sameTags : ∀ x, Memory.tagAt ⟨after.tags, storePrimaryAllocationStackMaybe stack userPtr
      after.bytes⟩ x = after.tagAt x := fun _ => rfl
  refine ⟨⟨nonzero, tagAllowed, ⟨?_, ?_, ?_, ?_⟩, _,
      Holds.congr ⟨holds'.held, holds'.classId, holds.state⟩ ?_ ?_⟩,
    ⟨⟨?_, ?_⟩, ?_, ?_⟩⟩
  · rw [sameTags, tags, if_neg (by omega), if_neg (by omega)]
    exact tagged.front
  · intro x low high
    rw [sameTags, tags, if_neg (by omega)]
    split_ifs with new
    · rfl
    · exact tagged.inside x low (by omega)
  · intro before
    rw [sameTags, tags, if_pos (by omega)]
  · intro empty before
    have here : stopOf userPtr newSize = userPtr := by
      rw [empty]
      exact stopOf_zero aligned
    exact (untracked userPtr (by omega)).trans ((rest userPtr).trans (if_pos ⟨by omega, empty, here.symm⟩))
  · intro x _ high
    exact (untracked x (by omega)).trans (front x (by omega))
  · intro x _ high
    exact (untracked x (by omega)).trans (front x high)
  · intro x outside
    rw [sameTags, tags, if_neg (by omega), if_neg (by omega)]
    rfl
  · intro x outside
    have header_ := @storeHeader_confined c ⟨m.tags, bytes⟩ userPtr block
      { header with sizeOrUnusedBytes := BitVec.ofNat 20 newSize } above (by omega) x (by omega)
    refine (untracked x (by omega)).trans ((rest x).trans ?_)
    rw [if_neg (by omega), if_neg (by omega)]
    exact header_.trans (kept x (by omega))
  · intro old x low high
    rw [sameTags, tags]
    split_ifs
    · exact Or.inl rfl
    · exact Or.inr tagAllowed
    · exact old x low high
  · intro first
    rw [sameTags, tags, if_neg (by omega), if_neg (by omega)]
    exact first

end Resize

end Config

end Scudo.Tagging
