import Scudo.Secondary.MapAllocator

/-!
The arithmetic of a new mapping. No computation wraps, a page stays uncommitted at both ends
of the reservation, and the header and the user part fit into what is committed, also after
the ends of the reservation have been given back.
-/

namespace Scudo.Secondary

/-- What the frontend asks for: less than the cap, with an alignment that it accepts. -/
structure Request.Valid (p : Platform) (req : Request) : Prop where
  size_lt : req.size < p.word.maxAllowedMallocSize
  power : isPowerOfTwo req.alignment = true
  alignment_le : req.alignment ≤ maxAlignment

/-- The same once the slack is added and the alignment raised to the minimum. -/
structure Request.Adjusted (p : Platform) (req : Request) : Prop where
  size_lt : req.size < p.word.maxAllowedMallocSize + p.word.minAlignment
  power : isPowerOfTwo req.alignment = true
  alignment_ge : p.word.minAlignment ≤ req.alignment
  alignment_le : req.alignment ≤ maxAlignment

theorem minAlignment_le (word : WordSize) : word.minAlignment ≤ 16 := by
  cases word <;> decide

theorem minAlignment_pos (word : WordSize) : 0 < word.minAlignment := by
  cases word <;> decide

theorem adjust_adjusted {p : Platform} {req : Request} (valid : req.Valid p) :
    (MapAllocator.adjust p req).Adjusted p := by
  have small := minAlignment_le p.word
  have wide := p.word.maxAllowedMallocSize_lt
  have sizeBound := valid.size_lt
  refine ⟨?_, ?_, le_max_right _ _, max_le valid.alignment_le (small.trans (by decide))⟩
  · change (if req.opts.addLargeAllocationSlack then wadd p.word.bits req.size p.word.minAlignment
      else req.size) < _
    split_ifs
    · rw [wadd_eq (by omega)]
      omega
    · omega
  · change isPowerOfTwo (max req.alignment p.word.minAlignment) = true
    rcases le_total req.alignment p.word.minAlignment with le | ge
    · rw [max_eq_right le]
      exact p.word.minAlignment_power
    · rw [max_eq_left ge]
      exact valid.power

section Layout
open MapAllocator

variable {p : Platform} {req : Request} {mapBase : Nat}

/-- Everything that is added up for one mapping stays below the size of the address space. -/
theorem Request.Adjusted.room (adjusted : req.Adjusted p) :
    req.size + 2 * req.alignment + p.word.getHeadersSize + 3 * p.page.bytes < 2 ^ p.word.bits := by
  have wide := p.word.maxAllowedMallocSize_lt
  have small := minAlignment_le p.word
  have headers := p.word.getHeadersSize_le
  have sizeBound := adjusted.size_lt
  have pageBound := p.page.atMost
  have alignmentBound : req.alignment ≤ 2 ^ 24 := adjusted.alignment_le
  omega

theorem Request.Adjusted.pos (adjusted : req.Adjusted p) : 0 < req.alignment :=
  (minAlignment_pos p.word).trans_le adjusted.alignment_ge

/-- The size of a reservation without its guard pages, on natural numbers. -/
theorem roundedSize_eq (adjusted : req.Adjusted p) :
    roundedSize p req.size req.alignment =
      roundUpSlow (roundUpSlow req.size req.alignment + p.word.getHeadersSize) p.page.bytes +
        (req.alignment - p.page.bytes) := by
  have room := adjusted.room
  have pagePos := p.page.pos
  have userBelow := roundUpSlow_lt req.size adjusted.pos
  have below := roundUpSlow_lt (roundUpSlow req.size req.alignment + p.word.getHeadersSize) pagePos
  unfold roundedSize
  rw [roundUp_eq adjusted.power (by omega) (by omega), wadd_eq (by omega),
    roundUp_eq p.page.power (by omega) (by omega)]
  dsimp only
  split_ifs with large
  · rw [wsub_eq (by omega) large.le, wadd_eq (by omega)]
  · omega

theorem mapSize_eq (adjusted : req.Adjusted p) :
    mapSize p req.size req.alignment =
      roundedSize p req.size req.alignment + 2 * p.page.bytes := by
  have room := adjusted.room
  have userBelow := roundUpSlow_lt req.size adjusted.pos
  have below := roundUpSlow_lt (roundUpSlow req.size req.alignment + p.word.getHeadersSize)
    p.page.pos
  have rounded := roundedSize_eq adjusted
  unfold mapSize
  rw [wrap_eq (by omega), wadd_eq (by omega)]

/-- With an alignment of a page or more the headers take one page of their own. -/
theorem roundedSize_of_large (adjusted : req.Adjusted p) (large : p.page.bytes ≤ req.alignment) :
    roundedSize p req.size req.alignment = roundUpSlow req.size req.alignment + req.alignment := by
  have pagePos := p.page.pos
  have headersPos := p.word.getHeadersSize_pos
  have headersLe := p.word.getHeadersSize_le
  have pageAtLeast := p.page.atLeast
  have pageDvd : p.page.bytes ∣ roundUpSlow req.size req.alignment :=
    (isPowerOfTwo_dvd p.page.power adjusted.power large).trans (dvd_roundUpSlow _ _)
  have upper : roundUpSlow (roundUpSlow req.size req.alignment + p.word.getHeadersSize)
      p.page.bytes ≤ roundUpSlow req.size req.alignment + p.page.bytes :=
    roundUpSlow_le pagePos (Nat.dvd_add pageDvd (dvd_refl _)) (by omega)
  have above := le_roundUpSlow (roundUpSlow req.size req.alignment + p.word.getHeadersSize) pagePos
  have lower : roundUpSlow req.size req.alignment + p.page.bytes ≤
      roundUpSlow (roundUpSlow req.size req.alignment + p.word.getHeadersSize) p.page.bytes := by
    obtain ⟨n, rounded⟩ := dvd_roundUpSlow
      (roundUpSlow req.size req.alignment + p.word.getHeadersSize) p.page.bytes
    obtain ⟨m, user⟩ := pageDvd
    rw [rounded] at above ⊢
    rw [user] at above ⊢
    have more : m < n := Nat.lt_of_mul_lt_mul_left (a := p.page.bytes) (by omega)
    calc p.page.bytes * m + p.page.bytes = p.page.bytes * (m + 1) := by ring
      _ ≤ p.page.bytes * n := Nat.mul_le_mul_left _ more
  rw [roundedSize_eq adjusted]
  omega

/-- Where `mmap` may put a reservation: at a page, with its end in the address space. -/
structure Reserved (p : Platform) (mapBase size : Nat) : Prop where
  aligned : p.page.bytes ∣ mapBase
  inside : mapBase + size < 2 ^ p.word.bits

/-- The commit range of an over-aligned block starts a page before the first aligned address
that leaves room for two pages. -/
structure AlignedBase (p : Platform) (req : Request) (mapBase commitBase : Nat) : Prop where
  base : alignedCommitBase p mapBase req.alignment = commitBase
  exact : commitBase + p.page.bytes = roundUpSlow (mapBase + p.page.bytes + 1) req.alignment
  above : mapBase + p.page.bytes ≤ commitBase
  below : commitBase ≤ mapBase + req.alignment

theorem alignedBase (adjusted : req.Adjusted p) (large : p.page.bytes ≤ req.alignment)
    (reserved : Reserved p mapBase (mapSize p req.size req.alignment)) :
    ∃ commitBase, AlignedBase p req mapBase commitBase := by
  have pagePos := p.page.pos
  have inside := reserved.inside
  rw [mapSize_eq adjusted, roundedSize_of_large adjusted large] at inside
  have alignmentBound : req.alignment ≤ 2 ^ 24 := adjusted.alignment_le
  have wide := p.word.bits_le
  have above := le_roundUpSlow (mapBase + p.page.bytes + 1) adjusted.pos
  have below := roundUpSlow_lt (mapBase + p.page.bytes + 1) adjusted.pos
  have multiple := dvd_roundUpSlow (mapBase + p.page.bytes + 1) req.alignment
  have twoPages : mapBase + 2 * p.page.bytes ≤
      roundUpSlow (mapBase + p.page.bytes + 1) req.alignment := by
    obtain ⟨n, rounded⟩ := (isPowerOfTwo_dvd p.page.power adjusted.power large).trans multiple
    obtain ⟨m, base⟩ := reserved.aligned
    rw [rounded, base] at above ⊢
    have more : m + 1 < n := Nat.lt_of_mul_lt_mul_left (a := p.page.bytes) (by
      rw [Nat.mul_add]
      omega)
    calc p.page.bytes * m + 2 * p.page.bytes = p.page.bytes * (m + 1 + 1) := by ring
      _ ≤ p.page.bytes * n := Nat.mul_le_mul_left _ more
  refine ⟨roundUpSlow (mapBase + p.page.bytes + 1) req.alignment - p.page.bytes, ?_, ?_, ?_, ?_⟩
  · unfold alignedCommitBase
    rw [wadd_eq (x := mapBase) (by omega), wadd_eq (by omega),
      roundUp_eq adjusted.power (by omega) (by omega), wsub_eq (by omega) (by omega)]
  · exact Nat.sub_add_cancel (by omega)
  · omega
  · omega

theorem AlignedBase.aligned {commitBase : Nat} (base : AlignedBase p req mapBase commitBase) :
    req.alignment ∣ commitBase + p.page.bytes := base.exact ▸ dvd_roundUpSlow _ _

/-- What the layout of a mapping guarantees, whether its ends were trimmed or not. -/
structure Layout.Sound (p : Platform) (req : Request) (mapBase : Nat) (l : Layout) : Prop where
  base_le : mapBase ≤ l.memMap.base
  stop_le : l.memMap.base + l.memMap.capacity ≤ mapBase + mapSize p req.size req.alignment
  zero : ∀ a, l.memMap.bytes a = 0
  guardBefore : l.memMap.base + p.page.bytes ≤ l.commitBase
  guardAfter : l.commitBase + l.commitSize p + p.page.bytes = l.memMap.base + l.memMap.capacity
  commitPages : p.page.bytes ∣ l.commitBase ∧ p.page.bytes ∣ l.commitSize p
  aligned : req.alignment ∣ l.allocPos p req.size req.alignment
  headerRoom : l.commitBase + p.word.getHeadersSize ≤ l.allocPos p req.size req.alignment
  userRoom : l.allocPos p req.size req.alignment + req.size ≤ l.commitBase + l.commitSize p

/-- An aligned place `user` that leaves room for the headers is enough: the block is placed
there or behind it. -/
theorem Layout.sound_of_room {l : Layout} (user : Nat) (adjusted : req.Adjusted p)
    (base_le : mapBase ≤ l.memMap.base)
    (stop_le : l.memMap.base + l.memMap.capacity ≤ mapBase + mapSize p req.size req.alignment)
    (inside : mapBase + mapSize p req.size req.alignment < 2 ^ p.word.bits)
    (zero : ∀ a, l.memMap.bytes a = 0) (mapEnd : l.mapEnd = l.memMap.base + l.memMap.capacity)
    (guardBefore : l.memMap.base + p.page.bytes ≤ l.commitBase)
    (pages : p.page.bytes ∣ l.commitBase ∧ p.page.bytes ∣ l.mapEnd)
    (aligned : req.alignment ∣ user) (headerRoom : l.commitBase + p.word.getHeadersSize ≤ user)
    (userRoom : user + req.size + p.page.bytes ≤ l.mapEnd) : l.Sound p req mapBase := by
  have alignmentBound : req.alignment ≤ 2 ^ 24 := adjusted.alignment_le
  have wide := p.word.bits_le
  have size : l.commitSize p = l.mapEnd - p.page.bytes - l.commitBase := by
    unfold Layout.commitSize
    rw [wsub_eq (x := l.mapEnd) (by omega) (by omega), wsub_eq (by omega) (by omega)]
  have pos : l.allocPos p req.size req.alignment =
      roundDownSlow (l.commitBase + l.commitSize p - req.size) req.alignment := by
    unfold Layout.allocPos
    rw [wadd_eq (by omega), wsub_eq (by omega) (by omega),
      roundDown_eq adjusted.power (by omega) (by omega)]
  have lower : user ≤ l.allocPos p req.size req.alignment := by
    rw [pos]
    exact le_roundDownSlow aligned (by omega)
  have upper : l.allocPos p req.size req.alignment ≤
      l.commitBase + l.commitSize p - req.size := by
    rw [pos]
    exact roundDownSlow_le _ _
  have commitPages : p.page.bytes ∣ l.commitSize p := by
    rw [size, Nat.sub_sub]
    exact Nat.dvd_sub pages.2 (Nat.dvd_add (dvd_refl _) pages.1)
  exact
    { base_le := base_le
      stop_le := stop_le
      zero := zero
      guardBefore := guardBefore
      guardAfter := by omega
      commitPages := ⟨pages.1, commitPages⟩
      aligned := pos ▸ dvd_roundDownSlow _ _
      headerRoom := headerRoom.trans lower
      userRoom := by omega }

/-- The front trimming moves the base of the reservation. -/
theorem trimFront_eq {newBase : Nat} {memMap : MemMap}
    (inside : memMap.base + memMap.capacity < 2 ^ p.word.bits) (base_le : memMap.base ≤ newBase)
    (proper : newBase < memMap.base + memMap.capacity) :
    trimFront p newBase memMap =
      { memMap with
        base := if p.word = .w32 then newBase else memMap.base
        capacity :=
          if p.word = .w32 then memMap.base + memMap.capacity - newBase else memMap.capacity } := by
  unfold trimFront
  by_cases trims : p.word = .w32 ∧ newBase ≠ memMap.base
  · have cut : wsub p.word.bits newBase memMap.base = newBase - memMap.base :=
      wsub_eq (by omega) base_le
    rw [if_pos trims, if_pos trims.1, if_pos trims.1, cut]
    unfold MemMap.unmap
    rw [if_neg (by omega), if_pos rfl, wadd_eq (by omega), wsub_eq (by omega) (by omega)]
    congr 1 <;> omega
  · rw [if_neg trims]
    by_cases word : p.word = .w32
    · have same : newBase = memMap.base := by
        by_contra different
        exact trims ⟨word, different⟩
      rw [if_pos word, if_pos word, same, Nat.add_sub_cancel_left]
    · rw [if_neg word, if_neg word]

/-- The back trimming keeps the base. -/
theorem trimBack_eq {newEnd mapEnd : Nat} {memMap : MemMap} (inside : mapEnd < 2 ^ p.word.bits)
    (stop : mapEnd = memMap.base + memMap.capacity) (proper : memMap.base < newEnd)
    (newEnd_le : newEnd ≤ mapEnd) :
    trimBack p newEnd mapEnd memMap =
      ({ memMap with
        capacity := if p.word = .w32 then newEnd - memMap.base else memMap.capacity },
        if p.word = .w32 then newEnd else mapEnd) := by
  subst stop
  unfold trimBack
  by_cases trims : p.word = .w32 ∧ newEnd ≠ memMap.base + memMap.capacity
  · have cut : wsub p.word.bits (memMap.base + memMap.capacity) newEnd =
        memMap.base + memMap.capacity - newEnd := wsub_eq (by omega) newEnd_le
    rw [if_pos trims, if_pos trims.1, if_pos trims.1, cut]
    unfold MemMap.unmap
    rw [if_neg (by omega), if_neg (by omega), wsub_eq (by omega) (by omega)]
    congr 2
    omega
  · rw [if_neg trims]
    by_cases word : p.word = .w32
    · have same : newEnd = memMap.base + memMap.capacity := by
        by_contra different
        exact trims ⟨word, different⟩
      rw [if_pos word, if_pos word, same, Nat.add_sub_cancel_left]
    · rw [if_neg word, if_neg word]

theorem layout_of_small (adjusted : req.Adjusted p) (small : req.alignment < p.page.bytes)
    (reserved : Reserved p mapBase (mapSize p req.size req.alignment)) :
    layout p req.size req.alignment mapBase =
      ⟨MemMap.fresh mapBase (mapSize p req.size req.alignment), mapBase + p.page.bytes,
        mapBase + mapSize p req.size req.alignment⟩ := by
  have inside := reserved.inside
  have size := mapSize_eq adjusted
  unfold layout
  rw [if_neg (by omega), wadd_eq (by omega), wadd_eq (by omega)]

theorem layout_sound_of_small (adjusted : req.Adjusted p) (small : req.alignment < p.page.bytes)
    (reserved : Reserved p mapBase (mapSize p req.size req.alignment)) :
    (layout p req.size req.alignment mapBase).Sound p req mapBase := by
  have inside := reserved.inside
  have size := mapSize_eq adjusted
  have rounded := roundedSize_eq adjusted
  have roundedDvd := dvd_roundUpSlow
    (roundUpSlow req.size req.alignment + p.word.getHeadersSize) p.page.bytes
  rw [Nat.sub_eq_zero_of_le small.le, Nat.add_zero] at rounded
  rw [← rounded] at roundedDvd
  have above := le_roundUpSlow (roundUpSlow req.size req.alignment + p.word.getHeadersSize)
    p.page.pos
  have userAbove := le_roundUpSlow req.size adjusted.pos
  have sizeDvd : p.page.bytes ∣ mapSize p req.size req.alignment := by
    rw [size]
    exact Nat.dvd_add roundedDvd (Nat.dvd_mul_left _ _)
  have alignmentDvd := isPowerOfTwo_dvd adjusted.power p.page.power small.le
  rw [layout_of_small adjusted small reserved]
  apply Layout.sound_of_room (mapBase + p.page.bytes +
    (roundedSize p req.size req.alignment - roundUpSlow req.size req.alignment)) adjusted
    (by exact le_rfl) (by exact le_rfl) inside (fun _ => rfl) rfl (by exact le_rfl)
  · exact ⟨Nat.dvd_add reserved.aligned (dvd_refl _), Nat.dvd_add reserved.aligned sizeDvd⟩
  · apply Nat.dvd_add (alignmentDvd.trans (Nat.dvd_add reserved.aligned (dvd_refl _)))
    exact Nat.dvd_sub (alignmentDvd.trans roundedDvd) (dvd_roundUpSlow _ _)
  · change mapBase + p.page.bytes + p.word.getHeadersSize ≤ _
    omega
  · change _ ≤ mapBase + mapSize p req.size req.alignment
    omega

/-- `NewMapBase` and `NewMapEnd` do not leave the reservation, and neither computation wraps. -/
theorem trim_inside {commitBase : Nat} (adjusted : req.Adjusted p)
    (large : p.page.bytes ≤ req.alignment)
    (reserved : Reserved p mapBase (mapSize p req.size req.alignment))
    (base : AlignedBase p req mapBase commitBase) :
    newMapBase p commitBase = commitBase - p.page.bytes ∧
      newMapEnd p commitBase req.size =
        commitBase + p.page.bytes + roundUpSlow req.size p.page.bytes + p.page.bytes ∧
      mapBase ≤ newMapBase p commitBase ∧
      newMapEnd p commitBase req.size ≤ mapBase + mapSize p req.size req.alignment := by
  have inside := reserved.inside
  have size := mapSize_eq adjusted
  have rounded := roundedSize_of_large adjusted large
  have wide := p.word.bits_le
  have pageBound := p.page.atMost
  have above := base.above
  have below := base.below
  have userLe : roundUpSlow req.size p.page.bytes ≤ roundUpSlow req.size req.alignment :=
    roundUpSlow_le p.page.pos ((isPowerOfTwo_dvd p.page.power adjusted.power large).trans
      (dvd_roundUpSlow _ _)) (le_roundUpSlow _ adjusted.pos)
  have userBelow := roundUpSlow_lt req.size p.page.pos
  have room := adjusted.room
  have newBase : newMapBase p commitBase = commitBase - p.page.bytes := by
    unfold newMapBase
    exact wsub_eq (by omega) (by omega)
  have newEnd : newMapEnd p commitBase req.size =
      commitBase + p.page.bytes + roundUpSlow req.size p.page.bytes + p.page.bytes := by
    unfold newMapEnd
    rw [roundUp_eq p.page.power (by omega) (by omega), wadd_eq (x := commitBase) (by omega),
      wadd_eq (x := commitBase + p.page.bytes) (by omega), wadd_eq (by omega)]
  exact ⟨newBase, newEnd, by omega, by omega⟩

/-- The layout of an over-aligned block, trimmed on 32-bit platforms. -/
theorem layout_of_large {commitBase : Nat} (adjusted : req.Adjusted p)
    (large : p.page.bytes ≤ req.alignment)
    (reserved : Reserved p mapBase (mapSize p req.size req.alignment))
    (base : AlignedBase p req mapBase commitBase) :
    layout p req.size req.alignment mapBase =
      ⟨⟨if p.word = .w32 then newMapBase p commitBase else mapBase,
          if p.word = .w32 then newMapEnd p commitBase req.size - newMapBase p commitBase
            else mapSize p req.size req.alignment, fun _ => 0⟩, commitBase,
        if p.word = .w32 then newMapEnd p commitBase req.size
          else mapBase + mapSize p req.size req.alignment⟩ := by
  obtain ⟨newBase, newEnd, newBase_ge, newEnd_le⟩ := trim_inside adjusted large reserved base
  have inside := reserved.inside
  have pagePos := p.page.pos
  have above := base.above
  unfold layout
  rw [if_pos large, base.base, wadd_eq inside]
  dsimp only
  rw [trimFront_eq (p := p) (by exact inside) (by exact newBase_ge)
      (by simp only [MemMap.fresh]; omega)]
  rw [trimBack_eq inside (by simp only [MemMap.fresh]; split_ifs <;> omega)
    (by simp only [MemMap.fresh]; split_ifs <;> omega) newEnd_le]
  simp only [MemMap.fresh]
  split_ifs <;> rfl

theorem layout_sound_of_large (adjusted : req.Adjusted p)
    (large : p.page.bytes ≤ req.alignment)
    (reserved : Reserved p mapBase (mapSize p req.size req.alignment)) :
    (layout p req.size req.alignment mapBase).Sound p req mapBase := by
  obtain ⟨commitBase, base⟩ := alignedBase adjusted large reserved
  obtain ⟨newBase, newEnd, newBase_ge, newEnd_le⟩ := trim_inside adjusted large reserved base
  have inside := reserved.inside
  have pagePos := p.page.pos
  have above := base.above
  have below := base.below
  have headersLe := p.word.getHeadersSize_le
  have pageAtLeast := p.page.atLeast
  have userAbove := le_roundUpSlow req.size p.page.pos
  have alignmentAbove := le_roundUpSlow req.size adjusted.pos
  have size := mapSize_eq adjusted
  have rounded := roundedSize_of_large adjusted large
  have alignmentDvd := isPowerOfTwo_dvd p.page.power adjusted.power large
  have commitDvd : p.page.bytes ∣ commitBase :=
    (Nat.dvd_add_left (dvd_refl _)).mp (alignmentDvd.trans base.aligned)
  rw [layout_of_large adjusted large reserved base]
  by_cases word : p.word = .w32
  · simp only [if_pos word]
    apply Layout.sound_of_room (commitBase + p.page.bytes) adjusted (by exact newBase_ge)
      (by simp only; omega) inside (fun _ => rfl) (by simp only; omega) (by simp only; omega)
    · refine ⟨commitDvd, ?_⟩
      rw [newEnd]
      exact Nat.dvd_add (Nat.dvd_add (Nat.dvd_add commitDvd (dvd_refl _)) (dvd_roundUpSlow _ _))
        (dvd_refl _)
    · exact base.aligned
    · simp only
      omega
    · simp only
      omega
  · simp only [if_neg word]
    apply Layout.sound_of_room (commitBase + p.page.bytes) adjusted (by exact le_rfl)
      (by exact le_rfl) inside (fun _ => rfl) rfl above
    · refine ⟨commitDvd, ?_⟩
      rw [size, rounded]
      exact Nat.dvd_add reserved.aligned (Nat.dvd_add (Nat.dvd_add
        (alignmentDvd.trans (dvd_roundUpSlow _ _)) alignmentDvd) (Nat.dvd_mul_left _ _))
    · exact base.aligned
    · simp only
      omega
    · simp only
      omega

/-- Every reservation that `mmap` can return is laid out soundly. -/
theorem layout_sound (adjusted : req.Adjusted p)
    (reserved : Reserved p mapBase (mapSize p req.size req.alignment)) :
    (layout p req.size req.alignment mapBase).Sound p req mapBase := by
  by_cases large : p.page.bytes ≤ req.alignment
  · exact layout_sound_of_large adjusted large reserved
  · exact layout_sound_of_small adjusted (by omega) reserved

theorem Layout.Sound.allocPos_eq {l : Layout} (sound : l.Sound p req mapBase)
    (adjusted : req.Adjusted p) (reserved : Reserved p mapBase (mapSize p req.size req.alignment)) :
    l.allocPos p req.size req.alignment =
      roundDownSlow (l.commitBase + l.commitSize p - req.size) req.alignment := by
  have inside := reserved.inside
  have stop := sound.stop_le
  have guardAfter := sound.guardAfter
  have userRoom := sound.userRoom
  have alignmentBound : req.alignment ≤ 2 ^ 24 := adjusted.alignment_le
  have wide := p.word.bits_le
  unfold Layout.allocPos
  rw [wadd_eq (by omega), wsub_eq (by omega) (by omega),
    roundDown_eq adjusted.power (by omega) (by omega)]

end Layout

end Scudo.Secondary
