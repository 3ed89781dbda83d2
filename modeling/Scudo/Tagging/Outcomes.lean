import Scudo.Tagging.Chunks

/-!
The tags that are chosen, and what the operations on tagged chunks leave at every address.
-/

namespace Scudo.Tagging
open Scudo.Lib MemoryTags
open Scudo.Secondary (FillContentsMode memset memset_inside memset_outside)

theorem getLeastSignificantSetBitIndex_spec {x : Nat} (positive : 0 < x) (below : x < 2 ^ 64) :
    x.testBit (getLeastSignificantSetBitIndex x) = true ∧
      ∀ i < getLeastSignificantSetBitIndex x, x.testBit i = false := by
  unfold getLeastSignificantSetBitIndex
  cases found : (List.range 64).find? fun i => x.testBit i with
  | none =>
    obtain ⟨i, set⟩ := Nat.exists_testBit_of_ne_zero positive.ne'
    have high : i < 64 := by
      by_contra far
      have clear := Nat.testBit_lt_two_pow
        (below.trans_le (Nat.pow_le_pow_right (by decide) (Nat.not_lt.mp far)))
      rw [set] at clear
      cases clear
    have clear := List.find?_range_eq_none.mp found i high
    rw [set] at clear
    cases clear
  | some i =>
    obtain ⟨set, -, lower⟩ := List.find?_range_eq_some.mp found
    refine ⟨set, fun j less => ?_⟩
    have clear := lower j less
    rwa [Bool.not_eq_true'] at clear

/-- Adding a number flips the bit of a sum that is its lowest one. -/
theorem lowestBit_flips {x : Nat} (positive : 0 < x) (below : x < 2 ^ 64) (a : Nat) :
    (a + x) >>> getLeastSignificantSetBitIndex x % 2 =
      (a >>> getLeastSignificantSetBitIndex x + 1) % 2 := by
  obtain ⟨set, lower⟩ := getLeastSignificantSetBitIndex_spec positive below
  generalize getLeastSignificantSetBitIndex x = i at *
  have rest : x % 2 ^ i = 0 := by
    apply Nat.eq_of_testBit_eq
    intro j
    rw [Nat.testBit_mod_two_pow, Nat.zero_testBit]
    by_cases low : j < i
    · rw [lower j low, Bool.and_false]
    · rw [decide_eq_false low, Bool.false_and]
  have odd : x / 2 ^ i % 2 = 1 := by
    rw [Nat.testBit_eq_decide_div_mod_eq, decide_eq_true_eq] at set
    exact set
  obtain ⟨q, rfl⟩ := Nat.dvd_of_mod_eq_zero rest
  rw [Nat.mul_div_cancel_left q (Nat.two_pow_pos i)] at odd
  rw [Nat.shiftRight_eq_div_pow, Nat.shiftRight_eq_div_pow, Nat.add_mul_div_left _ _ (Nat.two_pow_pos i)]
  omega

namespace Config

variable (c : Config)

section Word

theorem bits_eq : c.f.p.word.bits = 64 := by
  rw [c.word]
  rfl

theorem minAlignment_eq : c.f.p.word.minAlignment = 16 := by
  rw [c.word]
  rfl

theorem headerSize_eq : c.f.p.word.chunkHeaderSize = 16 := by
  rw [c.f.p.word.chunkHeaderSize_eq, c.minAlignment_eq]

end Word

/-- A tag that the blocks at this address may have. -/
def Allowed (block tag : Nat) : Prop :=
  tag < 16 ∧ (c.computeOddEvenMaskForPointerMaybe block).testBit tag = false

section Masks

theorem blockSize_bounds : 32 ≤ c.blockSize ∧ c.blockSize < 2 ^ 20 := ⟨c.least, c.most⟩

/-- Blocks next to each other have no tag in common. -/
theorem allowed_disjoint {block tag : Nat} (enabled : c.useOddEvenTags = true)
    (here : c.Allowed block tag) : ¬c.Allowed (block + c.blockSize) tag := by
  obtain ⟨least, most⟩ := c.blockSize_bounds
  obtain ⟨small, clear⟩ := here
  rintro ⟨-, clear'⟩
  have masks : ∀ t < 16, ∀ p < 2, (0x5555 <<< p).testBit t = false →
      (0x5555 <<< ((p + 1) % 2)).testBit t = true := by decide
  unfold computeOddEvenMaskForPointerMaybe getSizeLSBByClassId at clear clear'
  rw [if_pos enabled, Nat.and_one_is_mod] at clear clear'
  rw [lowestBit_flips (by omega) (by omega), Nat.add_mod] at clear'
  have set := masks tag small _ (Nat.mod_lt _ (by decide)) clear
  rw [clear'] at set
  cases set

/-- There are always two tags, so that one of them is not the previous one. -/
theorem allowed_two (block : Nat) : ∃ first second, first ≠ second ∧ first ≠ 0 ∧ second ≠ 0 ∧
    c.Allowed block first ∧ c.Allowed block second := by
  unfold Allowed computeOddEvenMaskForPointerMaybe
  rw [Nat.and_one_is_mod]
  have parity := Nat.mod_lt (block >>> c.getSizeLSBByClassId) (by decide : 2 > 0)
  generalize block >>> c.getSizeLSBByClassId % 2 = p at *
  cases c.useOddEvenTags with
  | false =>
    rw [if_neg Bool.false_ne_true]
    exact ⟨1, 2, by decide⟩
  | true =>
    obtain rfl | rfl : p = 0 ∨ p = 1 := by omega
    · exact ⟨1, 3, by decide⟩
    · exact ⟨2, 4, by decide⟩

theorem selectRandomTag_allowed {start block a : Nat} (below : a < 2 ^ 56) :
    ∃ tag, tag ≠ 0 ∧ c.Allowed block tag ∧
      selectRandomTag start a (c.computeOddEvenMaskForPointerMaybe block) = pointer tag a := by
  obtain ⟨first, -, -, nonzero, -, allowed, -⟩ := c.allowed_two block
  obtain ⟨tag, small, nonzero', clear, chosen⟩ := @selectRandomTag_spec a start _ below
    ⟨first, allowed.1, nonzero, allowed.2⟩
  exact ⟨tag, nonzero', ⟨small, clear⟩, chosen⟩

theorem testBit_exclude (mask prevTag tag : Nat) :
    (mask ||| 1 <<< prevTag).testBit tag = (mask.testBit tag || decide (prevTag = tag)) := by
  rw [Nat.testBit_or, Nat.one_shiftLeft, Nat.testBit_two_pow]

theorem selectRandomTag_other {start block prevTag a : Nat} (below : a < 2 ^ 56) :
    ∃ tag, tag ≠ 0 ∧ tag ≠ prevTag ∧ c.Allowed block tag ∧
      selectRandomTag start a (c.computeOddEvenMaskForPointerMaybe block ||| 1 <<< prevTag) =
        pointer tag a := by
  obtain ⟨first, second, different, nonzero, nonzero', allowed, allowed'⟩ := c.allowed_two block
  have left : ∃ tag < 16, tag ≠ 0 ∧
      (c.computeOddEvenMaskForPointerMaybe block ||| 1 <<< prevTag).testBit tag = false := by
    by_cases same : prevTag = first
    · refine ⟨second, allowed'.1, nonzero', ?_⟩
      rw [testBit_exclude, allowed'.2, decide_eq_false (same ▸ different)]
      rfl
    · refine ⟨first, allowed.1, nonzero, ?_⟩
      rw [testBit_exclude, allowed.2, decide_eq_false same]
      rfl
  obtain ⟨tag, small, nonzero, clear, chosen⟩ := @selectRandomTag_spec a start _ below left
  rw [testBit_exclude, Bool.or_eq_false_iff, decide_eq_false_iff_not] at clear
  exact ⟨tag, nonzero, Ne.symm clear.2, ⟨small, clear.1⟩, chosen⟩

end Masks

/-- The end of the last granule of a chunk. -/
def stopOf (userPtr size : Nat) : Nat := roundUpSlow (userPtr + size) 16

section Addresses

variable {c} {userPtr size : Nat}

theorem stopOf_bounds (userPtr size : Nat) : 16 ∣ stopOf userPtr size ∧
    userPtr + size ≤ stopOf userPtr size ∧ stopOf userPtr size < userPtr + size + 16 :=
  ⟨dvd_roundUpSlow _ _, le_roundUpSlow _ (by decide), roundUpSlow_lt _ (by decide)⟩

theorem stopOf_le {blockEnd : Nat} (aligned : 16 ∣ blockEnd) (inside : userPtr + size ≤ blockEnd) :
    stopOf userPtr size ≤ blockEnd := roundUpSlow_le (by decide) aligned inside

theorem stopOf_zero (aligned : 16 ∣ userPtr) : stopOf userPtr 0 = userPtr :=
  roundUpSlow_of_dvd (by decide) aligned

end Addresses

section EndMarker

variable {m : Memory} {tag stop size blockEnd x : Nat}

theorem storeEndMarker_eq {ptr : Nat} (untagged : untagPointer ptr = stop) (tagged : extractTag ptr = tag) :
    storeEndMarker m ptr size blockEnd =
      if stop ≠ blockEnd then
        if size = 0 then
          { storeTag m stop with bytes := memset m.bytes stop (UInt8.ofNat tag) 1 }
        else storeTag m stop
      else m := by
  subst untagged tagged
  rfl

theorem tagAt_storeTag (below : stop < 2 ^ 56) (aligned : 16 ∣ stop) :
    (storeTag m stop).tagAt x = if stop ≤ x ∧ x < stop + 16 then 0 else m.tagAt x := by
  have one := @tagAt_stg m 0 stop x (by decide) below
  rw [pointer_zero] at one
  exact one.trans (if_congr (by omega) rfl rfl)

theorem tagAt_storeEndMarker (small : tag < 16) (below : stop < 2 ^ 56) (aligned : 16 ∣ stop) :
    (storeEndMarker m (pointer tag stop) size blockEnd).tagAt x =
      if stop ≠ blockEnd ∧ stop ≤ x ∧ x < stop + 16 then 0 else m.tagAt x := by
  have marker := @tagAt_storeTag m stop x below aligned
  rw [storeEndMarker_eq (untagPointer_pointer below) (extractTag_pointer small below)]
  by_cases last : stop = blockEnd
  · rw [if_neg (not_not.mpr last), if_neg (fun both => both.1 last)]
  · have marked := marker.trans (if_congr (and_iff_right last).symm rfl rfl)
    rw [if_pos last]
    split_ifs at marked ⊢ <;> exact marked

theorem bytes_storeEndMarker (small : tag < 16) (below : stop < 2 ^ 56) :
    (storeEndMarker m (pointer tag stop) size blockEnd).bytes x =
      if stop ≠ blockEnd ∧ size = 0 ∧ x = stop then UInt8.ofNat tag else m.bytes x := by
  rw [storeEndMarker_eq (untagPointer_pointer below) (extractTag_pointer small below)]
  by_cases last : stop = blockEnd
  · rw [if_neg (not_not.mpr last), if_neg (fun both => both.1 last)]
  · rw [if_pos last]
    by_cases empty : size = 0
    · rw [if_pos empty]
      exact if_congr (by omega) rfl rfl
    · rw [if_neg empty, if_neg (fun both => empty both.2.1)]
      rfl

end EndMarker

section Chunks

variable {c} {m : Memory} {tag start userPtr size blockEnd mask x : Nat}

/-- A chunk that is tagged from scratch. -/
theorem prepareTaggedChunk_eq {tagged : Nat} (chosen : selectRandomTag start userPtr mask = tagged) :
    c.prepareTaggedChunk start m userPtr size mask blockEnd =
      (storeEndMarker (storeTags c.dczid (storeTag m (userPtr - 16)) tagged (tagged + size)).1
        (storeTags c.dczid (storeTag m (userPtr - 16)) tagged (tagged + size)).2 size blockEnd,
      tagged) := by
  subst chosen
  rfl

theorem prepareTaggedChunk_reads (small : tag < 16) (aligned : 16 ∣ userPtr) (above : 16 ≤ userPtr)
    (below : stopOf userPtr size < 2 ^ 56) (stopAligned : 16 ∣ stopOf userPtr size)
    (chosen : selectRandomTag start userPtr mask = pointer tag userPtr) :
    (c.prepareTaggedChunk start m userPtr size mask blockEnd).2 = pointer tag userPtr ∧
      (∀ x, (c.prepareTaggedChunk start m userPtr size mask blockEnd).1.tagAt x =
        if stopOf userPtr size ≠ blockEnd ∧ stopOf userPtr size ≤ x ∧ x < stopOf userPtr size + 16 then 0
        else if userPtr ≤ x ∧ x < stopOf userPtr size then tag
        else if userPtr - 16 ≤ x ∧ x < userPtr then 0 else m.tagAt x) ∧
      ∀ x, (c.prepareTaggedChunk start m userPtr size mask blockEnd).1.bytes x =
        if stopOf userPtr size ≠ blockEnd ∧ size = 0 ∧ x = stopOf userPtr size then UInt8.ofNat tag
        else if userPtr ≤ x ∧ x < stopOf userPtr size then 0 else m.bytes x := by
  obtain ⟨-, reach, -⟩ := stopOf_bounds userPtr size
  have stop : max userPtr (roundUpSlow (userPtr + size) 16) = stopOf userPtr size :=
    max_eq_right (le_trans (Nat.le_add_right _ _) reach)
  have filled := @storeTags_eq c.dczid tag userPtr (userPtr + size) (storeTag m (userPtr - 16)) c.lines
    small aligned (by omega)
  rw [stop, ← pointer_add] at filled
  rw [prepareTaggedChunk_eq chosen, filled]
  refine ⟨rfl, fun x => ?_, fun x => ?_⟩
  · rw [tagAt_storeEndMarker small below stopAligned]
    have front := @tagAt_storeTag m (userPtr - 16) x (by omega) (by omega)
    rw [Nat.sub_add_cancel above] at front
    by_cases inside : userPtr ≤ x ∧ x < stopOf userPtr size
    · rw [tagAt_fill_inside aligned stopAligned inside.1 inside.2, if_pos inside]
    · rw [tagAt_fill_outside aligned stopAligned (by omega), if_neg inside, front]
  · rw [bytes_storeEndMarker small below]
    rfl

theorem resizeTaggedChunk_eq {oldPtr newPtr newSize roundOldPtr : Nat}
    (rounded : roundUp 64 oldPtr 16 = roundOldPtr) :
    c.resizeTaggedChunk m oldPtr newPtr newSize blockEnd =
      if newPtr ≤ roundOldPtr then storeEndMarker m (roundUp 64 newPtr 16) newSize blockEnd
      else storeEndMarker (storeTags c.dczid m roundOldPtr newPtr).1
        (storeTags c.dczid m roundOldPtr newPtr).2 newSize blockEnd := by
  subst rounded
  rfl

theorem roundUp_pointer {a boundary : Nat} (power : isPowerOfTwo boundary = true)
    (small : tag < 16) (room : a + boundary ≤ 2 ^ 56) (whole : boundary ∣ 2 ^ 56) :
    roundUp 64 (pointer tag a) boundary = pointer tag (roundUpSlow a boundary) := by
  have positive := isPowerOfTwo_pos power
  have fits : pointer tag a + boundary < 2 ^ 61 := by
    unfold pointer
    omega
  rw [roundUp_eq power (by omega) (by omega)]
  obtain ⟨q, split⟩ := Nat.dvd_mul_left_of_dvd whole tag
  have regroup : a + boundary * q + boundary - 1 = a + boundary - 1 + boundary * q := by omega
  unfold pointer roundUpSlow
  rw [split, regroup, Nat.add_mul_div_left _ _ positive, Nat.add_mul, Nat.mul_comm q]

/-- The granules between the old and the new end get the tag and are cleared. -/
theorem resizeTaggedChunk_reads {old : Nat} (small : tag < 16) (oldBelow : old + 16 ≤ 2 ^ 56)
    (below : stopOf userPtr size + 16 ≤ 2 ^ 56) (stopAligned : 16 ∣ stopOf userPtr size) :
    (∀ x, (c.resizeTaggedChunk m (pointer tag old) (pointer tag (userPtr + size)) size
        blockEnd).tagAt x =
      if stopOf userPtr size ≠ blockEnd ∧ stopOf userPtr size ≤ x ∧ x < stopOf userPtr size + 16 then 0
      else if roundUpSlow old 16 ≤ x ∧ x < stopOf userPtr size then tag else m.tagAt x) ∧
    ∀ x, (c.resizeTaggedChunk m (pointer tag old) (pointer tag (userPtr + size)) size
        blockEnd).bytes x =
      if stopOf userPtr size ≠ blockEnd ∧ size = 0 ∧ x = stopOf userPtr size then UInt8.ofNat tag
      else if roundUpSlow old 16 ≤ x ∧ x < stopOf userPtr size then 0 else m.bytes x := by
  obtain ⟨-, reach, close⟩ := stopOf_bounds userPtr size
  have oldAligned := dvd_roundUpSlow old 16
  have oldReach := le_roundUpSlow old (by decide : 0 < 16)
  have power : isPowerOfTwo 16 = true := by decide
  have whole : 16 ∣ 2 ^ 56 := by decide
  rw [resizeTaggedChunk_eq (roundUp_pointer power small oldBelow whole)]
  by_cases shrinks : userPtr + size ≤ roundUpSlow old 16
  · have stop : stopOf userPtr size ≤ roundUpSlow old 16 := stopOf_le oldAligned shrinks
    have none_ : ∀ x, ¬(roundUpSlow old 16 ≤ x ∧ x < stopOf userPtr size) := by
      intro x
      omega
    have ended : roundUpSlow (userPtr + size) 16 = stopOf userPtr size := rfl
    rw [if_pos (pointer_le_iff.mpr shrinks), roundUp_pointer power small (by omega) whole, ended]
    refine ⟨fun x => ?_, fun x => ?_⟩
    · rw [if_neg (none_ x)]
      exact tagAt_storeEndMarker small (by omega) stopAligned
    · rw [if_neg (none_ x)]
      exact bytes_storeEndMarker small (by omega)
  · have stop : max (roundUpSlow old 16) (roundUpSlow (userPtr + size) 16) = stopOf userPtr size :=
      max_eq_right (by unfold stopOf at reach; omega)
    rw [if_neg (mt pointer_le_iff.mp shrinks), storeTags_eq m c.lines small oldAligned (by omega), stop]
    refine ⟨fun x => ?_, fun x => ?_⟩
    · rw [tagAt_storeEndMarker small (by omega) stopAligned]
      by_cases inside : roundUpSlow old 16 ≤ x ∧ x < stopOf userPtr size
      · rw [tagAt_fill_inside oldAligned stopAligned inside.1 inside.2, if_pos inside]
      · rw [tagAt_fill_outside oldAligned stopAligned (by omega), if_neg inside]
    · rw [bytes_storeEndMarker small (by omega)]
      rfl

end Chunks

end Config

end Scudo.Tagging
