import Scudo.Combined.Allocator

/-!
Where the frontend puts the chunk of a block of the secondary: right behind the two headers,
so that the marker of a shifted chunk is never written and the block is found again.
-/

namespace Scudo.Combined
open Scudo.Secondary Scudo.SharedArena

/-- The arguments that `allocate` accepts. -/
structure Call.Valid (p : Platform) (call : Call) : Prop where
  size_lt : call.size < p.word.maxAllowedMallocSize
  power : isPowerOfTwo call.alignment = true
  alignment_le : call.alignment ≤ maxAlignment

section Placement

variable {p : Platform} {classes : SizeClassMap} {settings : Settings} {b : Backends} {call : Call}
  {a : Allocation} {fill : FillContentsMode}

theorem raisedAlignment_eq (p : Platform) (alignment : Nat) :
    raisedAlignment p alignment = max alignment p.word.minAlignment := by
  unfold raisedAlignment
  split_ifs with low
  · exact (max_eq_right low.le).symm
  · exact (max_eq_left (by omega)).symm

theorem Call.Valid.request (valid : call.Valid p) (settings : Settings) :
    (secondaryRequest p settings call).Valid p := by
  have small := minAlignment_le p.word
  have raised := raisedAlignment_eq p call.alignment
  refine ⟨valid.size_lt, ?_, ?_⟩
  · change isPowerOfTwo (raisedAlignment p call.alignment) = true
    rw [raised]
    rcases le_total call.alignment p.word.minAlignment with le | ge
    · rw [max_eq_right le]
      exact p.word.minAlignment_power
    · rw [max_eq_left ge]
      exact valid.power
  · change raisedAlignment p call.alignment ≤ maxAlignment
    rw [raised]
    exact max_le valid.alignment_le (small.trans (by decide))

/-- Raising the alignment a second time, in the secondary, changes nothing. -/
theorem adjust_alignment : (MapAllocator.adjust p (secondaryRequest p settings call)).alignment =
    raisedAlignment p call.alignment := by
  change max (raisedAlignment p call.alignment) p.word.minAlignment = _
  rw [raisedAlignment_eq, max_assoc, max_self]

/-- The size with the slack. -/
theorem adjust_size (valid : call.Valid p) :
    (MapAllocator.adjust p (secondaryRequest p settings call)).size =
      call.size + if settings.opts.addLargeAllocationSlack then p.word.minAlignment else 0 := by
  have wide := p.word.maxAllowedMallocSize_lt
  have small := minAlignment_le p.word
  have sizeBound := valid.size_lt
  change (if settings.opts.addLargeAllocationSlack then
    wadd p.word.bits call.size p.word.minAlignment else call.size) = _
  split_ifs
  · exact wadd_eq (by omega)
  · rfl

/-- The parts of a sound block: nothing in them wraps, and they follow each other. -/
structure Placed (p : Platform) (settings : Settings) (call : Call) (a : Allocation) : Prop where
  ptr : a.block.ptr p = a.block.headerPos + p.word.largeHeaderSize
  userPtr : userPtrOf p (a.block.ptr p) (raisedAlignment p call.alignment) =
    a.block.headerPos + p.word.getHeadersSize
  default : wadd p.word.bits (a.block.ptr p) p.word.chunkHeaderSize =
    a.block.headerPos + p.word.getHeadersSize
  aligned : raisedAlignment p call.alignment ∣ a.block.headerPos + p.word.getHeadersSize
  user : a.block.headerPos + p.word.getHeadersSize + call.size +
    (if settings.opts.addLargeAllocationSlack then p.word.minAlignment else 0) ≤ a.blockEnd
  inside : a.blockEnd + p.page.bytes ≤ 2 ^ p.word.bits

theorem placed (valid : call.Valid p)
    (sound : a.Sound p (MapAllocator.adjust p (secondaryRequest p settings call))) :
    Placed p settings call a := by
  have adjusted := adjust_adjusted (valid.request settings)
  have power := adjusted.power
  have aligned := sound.fits.aligned
  have user := sound.fits.user
  have alignmentLe : (MapAllocator.adjust p (secondaryRequest p settings call)).alignment ≤ 2 ^ 24 :=
    adjusted.alignment_le
  rw [adjust_alignment] at power aligned alignmentLe
  rw [adjust_size valid] at user
  have wide := p.word.bits_le
  have headers := p.word.getHeadersSize_eq
  have chunkHeader := p.word.chunkHeaderSize_eq
  have inside := sound.range.inside
  have blockEnd := sound.blockEnd
  have pageAtLeast := p.page.atLeast
  have ptr : a.block.ptr p = a.block.headerPos + p.word.largeHeaderSize := wadd_eq (by omega)
  have default : wadd p.word.bits (a.block.ptr p) p.word.chunkHeaderSize =
      a.block.headerPos + p.word.getHeadersSize := by
    rw [ptr, wadd_eq (by omega)]
    omega
  refine ⟨ptr, ?_, default, aligned, by omega, by omega⟩
  unfold userPtrOf
  rw [default]
  exact roundUp_of_dvd power (by omega) (by omega) aligned

theorem Placed.chunk_userPtr (placed : Placed p settings call a) :
    (secondaryChunk p classes b call fill a).userPtr =
      a.block.headerPos + p.word.getHeadersSize := placed.userPtr

/-- The frontend leaves the user range as the secondary filled it. -/
theorem Placed.chunk_bytes (placed : Placed p settings call a) (i : Nat) :
    (secondaryChunk p classes b call fill a).bytes
        (a.block.headerPos + p.word.getHeadersSize + i) =
      a.block.memMap.bytes (a.block.headerPos + p.word.getHeadersSize + i) := by
  have user := placed.user
  have inside := placed.inside
  have pagePos := p.page.pos
  have headers := p.word.getHeadersSize_eq
  have chunkHeader := p.word.chunkHeaderSize_eq
  have room : 8 ≤ p.word.minAlignment := by cases p.word <;> decide
  unfold secondaryChunk initChunk
  dsimp only
  rw [placed.userPtr, placed.default, if_neg (by simp), if_neg (by simp),
    wsub_eq (by omega) (by omega)]
  exact memcpy_outside _ _ _ _ _ (Or.inr (by omega))

end Placement

end Scudo.Combined
