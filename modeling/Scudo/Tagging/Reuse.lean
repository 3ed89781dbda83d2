import Scudo.Tagging.Blocks

/-!
A block gets a chunk: from scratch, or with the tag that is left in it. Whatever was reclaimed since,
all granules of the chunk have its tag, and with filling all its bytes are zero.
-/

namespace Scudo.Tagging
open Scudo.Lib MemoryTags
open Scudo.Secondary (FillContentsMode memset memset_inside memset_outside)

namespace Config

variable (c : Config)

/-- What becomes of a block that gets a chunk. -/
structure Prepared (stray : Prop) (fill : FillContentsMode) (m m' : Memory)
    (tag userPtr size block : Nat) : Prop where
  nonzero : tag ≠ 0
  allowed : c.Allowed block tag
  tagged : c.Tagged m' tag userPtr size block
  front : ∀ x, x < userPtr → m'.bytes x = m.bytes x
  confined : m.Confined m' block (c.stop block)
  tags : ∀ x, m'.tagAt x = m.tagAt x ∨ m'.tagAt x = 0 ∨ m'.tagAt x = tag
  first : m.tagAt block = 0 → m'.tagAt block = 0
  zero : ¬stray → fill ≠ .noFill → ∀ x, userPtr ≤ x → x < userPtr + size → m'.bytes x = 0

/-- Where a chunk is in its block. -/
structure Placed (block userPtr size : Nat) : Prop where
  above : block + 16 ≤ userPtr
  aligned : 16 ∣ userPtr
  inside : userPtr + size ≤ c.stop block

section Scratch

variable {c} {stray : Prop} {fill : FillContentsMode} {m : Memory} {block userPtr size start : Nat}

theorem prepareTaggedChunk_prepared (is : c.IsBlock block) (placed : c.Placed block userPtr size) :
    ∃ tag, (c.prepareTaggedChunk start m userPtr size (c.computeOddEvenMaskForPointerMaybe block)
        (c.stop block)).2 = pointer tag userPtr ∧
      c.Prepared stray fill m (c.prepareTaggedChunk start m userPtr size
        (c.computeOddEvenMaskForPointerMaybe block) (c.stop block)).1 tag userPtr size block := by
  have above := placed.above
  have aligned := placed.aligned
  have fits := is.below
  have pages := c.f.p.page.pos
  have stopDvd := is.stop_dvd
  have last := stopOf_le stopDvd placed.inside
  obtain ⟨stopAligned, reach, -⟩ := stopOf_bounds userPtr size
  obtain ⟨tag, nonzero, allowed, chosen⟩ := @selectRandomTag_allowed c start block userPtr (by omega)
  obtain ⟨ptr, tags, bytes⟩ := @prepareTaggedChunk_reads c m tag start userPtr size (c.stop block) _
    allowed.1 aligned (by omega) (by omega) stopAligned chosen
  refine ⟨tag, ptr, nonzero, allowed, ⟨?_, ?_, ?_, ?_⟩, ?_, ⟨?_, ?_⟩, ?_, ?_, ?_⟩
  · rw [tags, if_neg (by omega), if_neg (by omega), if_pos (by omega)]
  · intro x low high
    rw [tags, if_neg (by omega), if_pos ⟨low, high⟩]
  · intro before
    rw [tags, if_pos (by omega)]
  · intro empty before
    have here : stopOf userPtr size = userPtr := by
      rw [empty]
      exact stopOf_zero aligned
    rw [bytes, if_pos ⟨by omega, empty, here.symm⟩]
  · intro x low
    rw [bytes, if_neg (by omega), if_neg (by omega)]
  · intro x outside
    rw [tags, if_neg (by omega), if_neg (by omega), if_neg (by omega)]
  · intro x outside
    rw [bytes, if_neg (by omega), if_neg (by omega)]
  · intro x
    rw [tags]
    split_ifs
    · exact Or.inr (Or.inl rfl)
    · exact Or.inr (Or.inr rfl)
    · exact Or.inr (Or.inl rfl)
    · exact Or.inl rfl
  · intro first
    rw [tags, if_neg (by omega), if_neg (by omega), first]
    split_ifs <;> rfl
  · intro _ _ x low high
    rw [bytes, if_neg (by omega), if_pos (by omega)]

end Scratch

section Reuse

variable {c} {stray : Prop} {fill : FillContentsMode} {m : Memory} {block userPtr size start : Nat}

/-- The addresses of a page. -/
theorem page_eq_iff {x j : Nat} (inRegion : c.base ≤ x) : c.page x = j ↔
    c.base + j * c.f.p.page.bytes ≤ x ∧ x < c.base + j * c.f.p.page.bytes + c.f.p.page.bytes := by
  have pages := c.f.p.page.pos
  unfold Config.page
  rw [Nat.div_eq_iff pages]
  omega

/-- The tag of the last chunk is on all granules up to the next page, and behind it unless that page has
another one. -/
theorem Reusable.upTo (reusable : c.Reusable stray m block) (is : c.IsBlock block)
    (tagged : m.tagAt (c.lastChunk m block) ≠ 0) {limit next : Nat}
    (next_eq : next = roundUpSlow (c.lastChunk m block) c.f.p.page.bytes)
    (limit_eq : limit = if next < c.lastChunk m block + (c.lastHeader m block).sizeOrUnusedBytes.toNat ∧
        m.tagAt next ≠ m.tagAt (c.lastChunk m block) then next
      else c.lastChunk m block + (c.lastHeader m block).sizeOrUnusedBytes.toNat) :
    ∀ x, c.lastChunk m block ≤ x → x < roundUpSlow limit 16 →
      m.tagAt x = m.tagAt (c.lastChunk m block) := by
  have above := reusable.above
  have tags := reusable.tags
  have from_ := is.above
  have last := stopOf_le is.stop_dvd reusable.below
  have pages := c.f.p.page.pos
  generalize (c.lastHeader m block).sizeOrUnusedBytes.toNat = size at *
  generalize c.lastChunk m block = userPtr at *
  have nextAbove : userPtr ≤ next := next_eq ▸ le_roundUpSlow userPtr pages
  have nextClose : next < userPtr + c.f.p.page.bytes := next_eq ▸ roundUpSlow_lt userPtr pages
  have nextPaged : c.f.p.page.bytes ∣ next := next_eq ▸ dvd_roundUpSlow _ _
  have nextAligned : 16 ∣ next := c.base_dvd.2.trans nextPaged
  obtain ⟨q, offset⟩ : c.f.p.page.bytes ∣ next - c.base := Nat.dvd_sub nextPaged c.paged
  rw [Nat.mul_comm] at offset
  have nextPage : c.page next = q := (page_eq_iff (by omega)).mpr (by omega)
  intro x low high
  have inChunk : x < stopOf userPtr size := by
    have ended : stopOf userPtr size = roundUpSlow (userPtr + size) 16 := rfl
    rw [limit_eq] at high
    split_ifs at high with cut
    · rw [roundUpSlow_of_dvd (by decide) nextAligned] at high
      exact lt_of_lt_of_le (high.trans cut.1) (stopOf_bounds userPtr size).2.1
    · exact high
  refine (tags x low inChunk tagged).resolve_right fun bare => ?_
  rcases Nat.lt_or_ge x next with before | behind
  · -- in the page of the pointer, which has its tag
    obtain ⟨r, rfl⟩ : ∃ r, q = r + 1 := by
      refine ⟨q - 1, (Nat.sub_add_cancel ?_).symm⟩
      by_contra none_
      have zero : q = 0 := by omega
      rw [zero, Nat.zero_mul] at offset
      omega
    rw [Nat.succ_mul] at offset
    have here : c.page x = r := (page_eq_iff (by omega)).mpr (by omega)
    have there : c.page userPtr = r := (page_eq_iff (by omega)).mpr (by omega)
    exact tagged (bare.here userPtr (by omega) (by omega) (there.trans here.symm))
  · -- behind the next page, which has the tag then
    have same : m.tagAt next = m.tagAt userPtr := by
      by_contra other
      by_cases reached : next < userPtr + size
      · rw [limit_eq, if_pos ⟨reached, other⟩, roundUpSlow_of_dvd (by decide) nextAligned] at high
        omega
      · have least := stopOf_le nextAligned (Nat.not_lt.mp reached)
        omega
    have gone : m.tagAt next = 0 := by
      by_cases samePage : c.page x = q
      · exact bare.here next (by omega) (by omega) (nextPage.trans samePage.symm)
      · have outside := mt (page_eq_iff (by omega)).mpr samePage
        refine bare.inner next (by omega) (by omega) ?_ ?_
        · rw [nextPage]
          omega
        · rw [nextPage, Nat.succ_mul]
          omega
    exact tagged (same.symm.trans gone)

/-- How much of the last chunk `tagChunk` relies on, as a tagged address. -/
def prevEndOf (m : Memory) (tagged next size : Nat) : Nat :=
  if next < tagged + size ∧ loadTag m next ≠ next then next else tagged + size

theorem tagChunk_reuse {tagged next prevEnd : Nat} {after : Memory} (loaded : loadTag m userPtr = tagged)
    (next_eq : roundUp 64 tagged c.f.p.page.bytes = next)
    (prevEnd_eq : prevEndOf m tagged next (c.lastHeader m block).sizeOrUnusedBytes.toNat = prevEnd)
    (resized : c.resizeTaggedChunk m prevEnd (tagged + size) size (c.stop block) = after)
    (valid : (c.f.getChunkFromBlock m.bytes block).2.2 = true) (same : c.lastChunk m block = userPtr)
    (other : tagged ≠ userPtr) :
    c.tagChunk start m block userPtr size fill =
      ({ after with
          bytes :=
            if fill ≠ .noFill ∧ (c.lastHeader m block).originOrWasZeroed = 0 then
              memset after.bytes userPtr 0 (min size (roundUp 64 (prevEnd - tagged) 16))
            else if size ≠ 0 then memset after.bytes userPtr 0 16
            else after.bytes },
        tagged) := by
  subst loaded next_eq prevEnd_eq resized
  unfold tagChunk
  exact if_pos ⟨valid, same, other⟩

theorem tagChunk_scratch (not_ : ¬((c.f.getChunkFromBlock m.bytes block).2.2 = true ∧
      c.lastChunk m block = userPtr ∧ loadTag m userPtr ≠ userPtr)) :
    c.tagChunk start m block userPtr size fill = c.prepareTaggedChunk start m userPtr size
      (c.computeOddEvenMaskForPointerMaybe block) (c.stop block) := by
  unfold tagChunk
  exact if_neg not_

/-- The end on which `tagChunk` relies, as an address. -/
theorem prevEndOf_pointer {tag a next size : Nat} (small : tag < 16) (below : next < 2 ^ 56) :
    prevEndOf m (pointer tag a) (pointer tag next) size =
      pointer tag (if next < a + size ∧ m.tagAt next ≠ tag then next else a + size) := by
  unfold prevEndOf
  rw [loadTag_pointer small below, pointer_add]
  by_cases cut : next < a + size ∧ m.tagAt next ≠ tag
  · rw [if_pos ⟨pointer_lt_iff.mpr cut.1, mt pointer_inj.mp cut.2⟩, if_pos cut]
  · rw [if_neg (fun both => cut ⟨pointer_lt_iff.mp both.1, mt pointer_inj.mpr both.2⟩), if_neg cut]

/-- The tags of the block are those that it may have. -/
def AllowedTags (m : Memory) (block : Nat) : Prop :=
  ∀ x, block ≤ x → x < c.stop block → m.tagAt x = 0 ∨ c.Allowed block (m.tagAt x)

/-- Which bytes `tagChunk` clears, beside those of granules that get their tag. -/
def clearedLength (fill : FillContentsMode) (wasZeroed : BitVec 2) (size covered : Nat) : Nat :=
  if fill ≠ .noFill ∧ wasZeroed = 0 then min size covered else if size ≠ 0 then 16 else 0

theorem clearedLength_le (fill : FillContentsMode) (wasZeroed : BitVec 2) (covered : Nat) :
    userPtr + clearedLength fill wasZeroed size covered ≤ max (userPtr + size) (userPtr + 16) ∧
      (size = 0 → clearedLength fill wasZeroed size covered = 0) := by
  unfold clearedLength
  split_ifs <;> omega

/-- The tag is used again: on what is left of the last chunk it is already. -/
theorem resizeTaggedChunk_prepared {limit tag : Nat} {wasZeroed : BitVec 2} {after : Memory}
    {bytes : Nat → UInt8}
    (resized : c.resizeTaggedChunk m (pointer tag limit) (pointer tag (userPtr + size)) size
      (c.stop block) = after) (is : c.IsBlock block) (placed : c.Placed block userPtr size) (nonzero : tag ≠ 0)
    (allowed : c.Allowed block tag) (front : m.tagAt (userPtr - 16) = 0) (above : userPtr ≤ limit)
    (below : limit ≤ c.stop block)
    (covered : ∀ x, userPtr ≤ x → x < roundUpSlow limit 16 → m.tagAt x = tag)
    (zero : ¬stray → wasZeroed ≠ 0 → ∀ x, userPtr ≤ x → x < roundUpSlow limit 16 → m.bytes x = 0)
    (cleared : ∀ x, bytes x =
      if userPtr ≤ x ∧ x < userPtr + clearedLength fill wasZeroed size (roundUpSlow limit 16 - userPtr)
      then 0 else after.bytes x) :
    c.Prepared stray fill m { after with bytes := bytes } tag userPtr size block := by
  have blockBelow := placed.above
  have aligned := placed.aligned
  have fits := is.below
  have pages := c.base_dvd.2
  have positive := c.f.p.page.pos
  have stopDvd := is.stop_dvd
  have last := stopOf_le stopDvd placed.inside
  obtain ⟨stopAligned, reach, -⟩ := stopOf_bounds userPtr size
  have limitReach := le_roundUpSlow limit (by decide : 0 < 16)
  have page16 : 16 ≤ c.f.p.page.bytes := Nat.le_of_dvd positive pages
  obtain ⟨tags, rest⟩ := @resizeTaggedChunk_reads c m tag userPtr size (c.stop block) limit allowed.1
    (by omega) (by omega) stopAligned
  rw [resized] at tags rest
  obtain ⟨short, none_⟩ := @clearedLength_le userPtr size fill wasZeroed (roundUpSlow limit 16 - userPtr)
  have chunk : 0 < size → userPtr + 16 ≤ stopOf userPtr size := by omega
  refine ⟨nonzero, allowed, ⟨?_, ?_, ?_, ?_⟩, ?_, ⟨?_, ?_⟩, ?_, ?_, ?_⟩
  · change after.tagAt _ = 0
    rw [tags, if_neg (by omega), if_neg (by omega), front]
  · intro x low high
    change after.tagAt _ = tag
    rw [tags, if_neg (by omega)]
    split_ifs with new
    · rfl
    · exact covered x low (by omega)
  · intro before
    change after.tagAt _ = 0
    rw [tags, if_pos (by omega)]
  · intro empty before
    have here : stopOf userPtr size = userPtr := by
      rw [empty]
      exact stopOf_zero aligned
    change bytes userPtr = _
    rw [cleared, none_ empty, if_neg (by omega), rest, if_pos ⟨by omega, empty, here.symm⟩]
  · intro x low
    change bytes x = _
    rw [cleared, if_neg (by omega), rest, if_neg (by omega), if_neg (by omega)]
  · intro x outside
    change after.tagAt _ = _
    rw [tags, if_neg (by omega), if_neg (by omega)]
  · intro x outside
    change bytes x = _
    rw [cleared, if_neg (by omega), rest, if_neg (by omega), if_neg (by omega)]
  · intro x
    change after.tagAt x = _ ∨ after.tagAt x = _ ∨ after.tagAt x = _
    rw [tags]
    split_ifs
    · exact Or.inr (Or.inl rfl)
    · exact Or.inr (Or.inr rfl)
    · exact Or.inl rfl
  · intro first
    change after.tagAt _ = 0
    rw [tags, if_neg (by omega), if_neg (by omega), first]
  · intro tame filled x low high
    change bytes x = 0
    rw [cleared]
    by_cases wasNot : wasZeroed = 0
    · -- what was not cleared when the chunk was released is cleared now
      have length : clearedLength fill wasZeroed size (roundUpSlow limit 16 - userPtr) =
          min size (roundUpSlow limit 16 - userPtr) := if_pos ⟨filled, wasNot⟩
      rw [length]
      split_ifs with now
      · rfl
      · rw [rest, if_neg (by omega), if_pos (by omega)]
    · split_ifs with now
      · rfl
      · rw [rest, if_neg (by omega)]
        split_ifs with new
        · rfl
        · exact zero tame wasNot x low (by omega)

theorem roundUpSlow_add {a x boundary : Nat} (multiple : boundary ∣ a) (positive : 0 < boundary) :
    roundUpSlow (a + x) boundary = a + roundUpSlow x boundary := by
  have regroup : a + x + boundary - 1 = a + (x + boundary - 1) := by omega
  change roundDownSlow (a + x + boundary - 1) boundary = a + roundDownSlow (x + boundary - 1) boundary
  rw [regroup, roundDownSlow_add multiple]

/-- The block gets its chunk, whatever it had before. -/
theorem tagChunk_prepared (reusable : c.Reusable stray m block) (is : c.IsBlock block)
    (placed : c.Placed block userPtr size) (allowed : c.AllowedTags m block)
    (edge : m.tagAt (c.stop block) = 0) :
    ∃ tag, (c.tagChunk start m block userPtr size fill).2 = pointer tag userPtr ∧
      c.Prepared stray fill m (c.tagChunk start m block userPtr size fill).1 tag userPtr size block := by
  by_cases again : (c.f.getChunkFromBlock m.bytes block).2.2 = true ∧ c.lastChunk m block = userPtr ∧
      loadTag m userPtr ≠ userPtr
  · obtain ⟨valid, same, other⟩ := again
    have inside := placed.inside
    have below := is.below
    have pages := c.f.p.page.pos
    have most := c.f.p.page.atMost
    have room := reusable.below
    have front := reusable.front
    have zero := reusable.zero
    have loaded : loadTag m userPtr = pointer (m.tagAt userPtr) userPtr := loadTag_address (by omega)
    have nonzero : m.tagAt userPtr ≠ 0 := by
      intro none_
      rw [loaded, none_, pointer_zero] at other
      exact other rfl
    have before : userPtr < c.stop block := by
      rcases Nat.lt_or_ge userPtr (c.stop block) with lt | ge
      · exact lt
      · have here : userPtr = c.stop block := by omega
        rw [here] at nonzero
        exact absurd edge nonzero
    have tagAllowed := (allowed userPtr (by have above := placed.above; omega) before).resolve_left nonzero
    have whole : c.f.p.page.bytes ∣ 2 ^ 56 :=
      isPowerOfTwo_dvd c.f.p.page.power (isPowerOfTwo_iff.mpr ⟨56, rfl⟩) (by omega)
    have nextClose := roundUpSlow_lt userPtr pages
    have nextAbove := le_roundUpSlow userPtr pages
    have covered := reusable.upTo is (by rw [same]; exact nonzero) rfl rfl
    have limited := @prevEndOf_pointer m _ userPtr (roundUpSlow userPtr c.f.p.page.bytes)
      (c.lastHeader m block).sizeOrUnusedBytes.toNat tagAllowed.1 (by omega)
    rw [same] at covered room front zero
    have bounds : ∀ limit, limit = (if roundUpSlow userPtr c.f.p.page.bytes <
          userPtr + (c.lastHeader m block).sizeOrUnusedBytes.toNat ∧
        m.tagAt (roundUpSlow userPtr c.f.p.page.bytes) ≠ m.tagAt userPtr then
        roundUpSlow userPtr c.f.p.page.bytes
        else userPtr + (c.lastHeader m block).sizeOrUnusedBytes.toNat) →
        userPtr ≤ limit ∧ limit ≤ userPtr + (c.lastHeader m block).sizeOrUnusedBytes.toNat := by
      intro limit limit_eq
      split_ifs at limit_eq <;> omega
    obtain ⟨limit, limit_eq⟩ : ∃ limit, limit = (if roundUpSlow userPtr c.f.p.page.bytes <
          userPtr + (c.lastHeader m block).sizeOrUnusedBytes.toNat ∧
        m.tagAt (roundUpSlow userPtr c.f.p.page.bytes) ≠ m.tagAt userPtr then
        roundUpSlow userPtr c.f.p.page.bytes
        else userPtr + (c.lastHeader m block).sizeOrUnusedBytes.toNat) := ⟨_, rfl⟩
    obtain ⟨above, within⟩ := bounds limit limit_eq
    rw [← limit_eq] at limited covered
    have whole16 : roundUpSlow limit 16 ≤
        stopOf userPtr (c.lastHeader m block).sizeOrUnusedBytes.toNat :=
      roundUpSlow_le (by decide) (stopOf_bounds _ _).1 (within.trans (stopOf_bounds _ _).2.1)
    have limitReach := le_roundUpSlow limit (by decide : 0 < 16)
    have gap : roundUp 64 (pointer (m.tagAt userPtr) limit - pointer (m.tagAt userPtr) userPtr) 16 =
        roundUpSlow limit 16 - userPtr := by
      have split : limit = userPtr + (limit - userPtr) := by omega
      have distance : pointer (m.tagAt userPtr) limit - pointer (m.tagAt userPtr) userPtr =
          limit - userPtr := by
        unfold pointer
        omega
      rw [distance, roundUp_eq (by decide) (by omega) (by decide)]
      have shifted := @roundUpSlow_add userPtr (limit - userPtr) 16 placed.aligned (by decide)
      rw [← split] at shifted
      omega
    obtain ⟨after, resized⟩ : ∃ after, c.resizeTaggedChunk m (pointer (m.tagAt userPtr) limit)
        (pointer (m.tagAt userPtr) (userPtr + size)) size (c.stop block) = after := ⟨_, rfl⟩
    have resized' := resized
    rw [← pointer_add] at resized'
    rw [tagChunk_reuse loaded (roundUp_pointer c.f.p.page.power tagAllowed.1 (by omega) whole) limited
      resized' valid same (loaded ▸ other), gap]
    refine ⟨_, rfl, resizeTaggedChunk_prepared resized is placed nonzero tagAllowed front above (by omega)
      covered (fun tame wasZeroed x low high => zero tame wasZeroed x low (by omega)) fun x => ?_⟩
    unfold clearedLength
    by_cases fills : fill ≠ .noFill ∧ (c.lastHeader m block).originOrWasZeroed = 0
    · rw [if_pos fills, if_pos fills]
      rfl
    · rw [if_neg fills, if_neg fills]
      by_cases some_ : size ≠ 0
      · rw [if_pos some_, if_pos some_]
        rfl
      · rw [if_neg some_, if_neg some_, if_neg (by omega)]
  · rw [tagChunk_scratch again]
    exact prepareTaggedChunk_prepared is placed

end Reuse

end Config

end Scudo.Tagging
