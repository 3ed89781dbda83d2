import Scudo.ErrorInfo.ErrorInfo

/-!
`getErrorInfo` tolerates any content of what it is given: all of its indices are in bounds, and its
loops end.
-/

namespace Scudo.ErrorInfo
open Scudo.Primary
open Scudo.Lib.Checked

theorem untagPointer_lt (ptr : Nat) : untagPointer ptr < 2 ^ 56 :=
  Nat.and_lt_two_pow _ (by decide)

/-- The depot, where there is one, has passed its check. -/
def DepotFits (depot : Option StackDepot) : Prop :=
  ∀ d, depot = some d → ∃ size mask, d.Fits size mask

theorem checkDepot_ends (depot : Option Buffer) :
    Ends (checkDepot depot) fun checked => ∀ d ∈ checked, DepotFits d := by
  unfold checkDepot
  cases depot with
  | none =>
    apply Ends.some
    intro d never
    cases never
  | some buffer =>
    apply Ends.ite (fun _ => Ends.none)
    intro header
    rw [Nat.not_lt] at header
    apply (@StackDepot.isValid_ends ⟨buffer⟩ header).bind
    intro valid fits
    apply Ends.ite _ fun _ => Ends.none
    intro holds
    apply Ends.some
    intro d same
    rw [← Option.some.inj same]
    exact fits holds

section Memory

variable {dump : CrashDump}

/-- What `getErrorInfo` checks of the memory, and how long it is at most. -/
structure Bounded (dump : CrashDump) : Prop where
  fits : dump.memoryAddr + dump.memory.size < 2 ^ 64
  small : dump.memory.size ≤ 2 ^ 47

/-- A granule that is read lies in the memory. -/
def Granule (dump : CrashDump) (addr : Nat) (data : Int) : Prop :=
  data = (addr - dump.memoryAddr : Nat) ∧ dump.memoryAddr ≤ addr ∧
    addr + 16 ≤ dump.memoryAddr + dump.memory.size

theorem getGranule_ends (bounded : Bounded dump) {addr : Nat} (bound : addr < 2 ^ 64) :
    Ends (getGranule dump addr) fun granule => ∀ g ∈ granule, Granule dump addr g.1 := by
  have fits := bounded.fits
  have tags := dump.tags
  unfold getGranule archMemoryTagGranuleSize
  apply Ends.ite (fun _ => Ends.none)
  intro accepted
  rw [not_or, not_or, Nat.not_lt, Nat.not_lt, Nat.not_lt] at accepted
  obtain ⟨above, whole, below⟩ := accepted
  have next : addr + 16 < 2 ^ 64 := by
    rw [wadd_ite bound (by decide)] at whole
    split_ifs at whole with next
    · exact next
    · omega
  rw [wadd_eq next, wadd_eq fits] at below
  rw [wsub_eq bound above]
  have data : dump.memory.address (addr - dump.memoryAddr) =
      .ok ((addr - dump.memoryAddr : Nat) : Int) := if_pos (by omega)
  apply (Ends.of_eq data rfl).bind
  rintro _ rfl
  have tag : Ends (dump.memoryTags.load 1 ((addr - dump.memoryAddr) / 16 : Nat)) _ :=
    Buffer.load_ends (Int.natCast_nonneg _) (by omega)
  apply tag.bind
  intro tag _
  exact Ends.some ⟨rfl, above, below⟩

theorem getChunkOffsetFromBlock_ends {addr : Nat} {data : Int} (granule : Granule dump addr data) :
    Ends (getChunkOffsetFromBlock dump data) fun offset => 16 ≤ offset ∧ offset < 2 ^ 32 + 16 := by
  obtain ⟨rfl, above, below⟩ := granule
  unfold getChunkOffsetFromBlock headerSize
  have marker : Ends (dump.memory.load 4 (addr - dump.memoryAddr : Nat)) _ :=
    Buffer.load_ends (by omega) (by omega)
  apply marker.bind
  intro marker _
  apply Ends.ite
  · intro _
    have offset : Ends (dump.memory.load 4 ((addr - dump.memoryAddr : Nat) + 4)) _ :=
      Buffer.load_ends (by omega) (by omega)
    apply offset.bind
    intro offset small
    apply Ends.pure
    rw [wadd_eq (by omega)]
    omega
  · intro _
    exact Ends.pure ⟨le_rfl, by decide⟩

/-- A chunk that is read begins at least one granule after the memory does. -/
theorem readBlock_ends (bounded : Bounded dump) {addr : Nat} (bound : addr < 2 ^ 64) :
    Ends (readBlock dump addr) fun block => ∀ b ∈ block,
      16 ≤ b.data ∧ b.data + 16 ≤ dump.memory.size := by
  have fits := bounded.fits
  have small := bounded.small
  unfold readBlock
  apply (getGranule_ends bounded bound).bind
  intro block isGranule
  cases block with
  | none => exact Ends.none
  | some block =>
    obtain ⟨blockBegin, _⟩ := block
    have granule := isGranule _ (Option.mem_some_self _)
    have above := granule.2.1
    have below := granule.2.2
    apply (getChunkOffsetFromBlock_ends granule).bind
    intro offset range
    obtain ⟨least, most⟩ := range
    have chunkBound : wadd 64 addr offset < 2 ^ 64 := wrap_lt 64 _
    apply (getGranule_ends bounded chunkBound).bind
    intro chunk isChunk
    cases chunk with
    | none => exact Ends.none
    | some chunk =>
      obtain ⟨chunkBegin, tag⟩ := chunk
      obtain ⟨place, chunkAbove, chunkBelow⟩ := isChunk _ (Option.mem_some_self _)
      dsimp only at place
      -- where the address of the chunk wraps it is below the memory
      have after : addr + offset < 2 ^ 64 := by
        by_contra wraps
        rw [wadd_ite bound (by omega), if_neg wraps] at chunkAbove
        omega
      rw [wadd_eq after] at place chunkBelow
      have inside : 16 ≤ chunkBegin ∧ chunkBegin + 16 ≤ dump.memory.size := ⟨by omega, by omega⟩
      have granuleBytes : headerSize = 16 := rfl
      have header : Ends (dump.memory.load 8 (chunkBegin - headerSize)) _ :=
        Buffer.load_ends (by omega) (by omega)
      apply header.bind
      intro header _
      apply Ends.ite
      · intro _
        have first : Ends (dump.memory.load 1 chunkBegin) _ :=
          Buffer.load_ends (by omega) (by omega)
        apply first.bind
        intro first _
        exact Ends.some inside
      · intro _
        exact Ends.some inside

end Memory

/-- The reports that have been written are in the array. -/
def Reporting.Valid (s : Reporting) : Prop := s.nextErrorReport ≤ numErrorReports

section Inline

variable {dump : CrashDump} {depot : Option StackDepot} {info : BlockInfo} {s : Reporting}

/-- Room is left as long as the check does not say that all reports are used. -/
def Room (result : Bool × Reporting) : Prop :=
  result.2.Valid ∧ (result.1 = false → result.2.nextErrorReport < numErrorReports)

theorem inlineTrace_ends (depotFits : DepotFits depot) (block : BlockRead)
    (inside : 16 ≤ block.data ∧ block.data + 16 ≤ dump.memory.size)
    (trace : Vector Nat maxTraceSize) :
    Ends (inlineTrace dump depot block trace) fun _ => True := by
  unfold inlineTrace memTagAllocationTraceIndex
  cases depot with
  | none => exact Ends.pure trivial
  | some depot =>
    obtain ⟨size, mask, fits⟩ := depotFits depot rfl
    have hash : Ends (dump.memory.load 4 (block.data + 4 * -2)) _ :=
      Buffer.load_ends (by omega) (by omega)
    apply hash.bind
    intro hash _
    exact fits.collectTraceMaybe_ends _ _

theorem checkOOB_ends (bounded : Bounded dump) (depotFits : DepotFits depot) {blockAddr : Nat}
    (bound : blockAddr < 2 ^ 64) (room : s.nextErrorReport < numErrorReports) :
    Ends (checkOOB dump depot info s blockAddr) Room := by
  have unchanged : Room (false, s) := ⟨room.le, fun _ => room⟩
  unfold checkOOB
  apply Ends.ite (fun _ => Ends.pure unchanged)
  intro _
  apply (readBlock_ends bounded bound).bind
  intro block isBlock
  cases block with
  | none => exact Ends.pure unchanged
  | some block =>
    have inside := isBlock _ (Option.mem_some_self _)
    apply Ends.ite (fun _ => Ends.pure unchanged)
    intro _
    apply (getAt_ends room).bind
    intro r _
    apply (inlineTrace_ends depotFits block inside _).bind
    intro allocationTrace _
    have tidIndex : memTagAllocationTidIndex = -1 := rfl
    have tid : Ends (dump.memory.load 4 (block.data + 4 * memTagAllocationTidIndex)) _ :=
      Buffer.load_ends (by omega) (by omega)
    apply tid.bind
    intro tid _
    apply (setAt_ends room).bind
    intro reports _
    apply Ends.pure
    refine ⟨room, ?_⟩
    intro more
    exact lt_of_le_of_ne room (beq_eq_false_iff_ne.mp more)

theorem checkDistances_ends (bounded : Bounded dump) (depotFits : DepotFits depot)
    (room : s.nextErrorReport < numErrorReports) (distances : List Nat) :
    Ends (checkDistances dump depot info s distances) Reporting.Valid := by
  induction distances generalizing s with
  | nil => exact Ends.pure room.le
  | cons i rest ih =>
    unfold checkDistances
    apply (checkOOB_ends bounded depotFits (wrap_lt 64 _) room).bind
    rintro ⟨all, s₁⟩ ⟨le₁, more₁⟩
    dsimp only at le₁ more₁ ⊢
    apply Ends.ite (fun _ => Ends.pure le₁)
    intro first
    apply (checkOOB_ends bounded depotFits (wrap_lt 64 _)
      (more₁ (Bool.eq_false_iff.mpr first))).bind
    rintro ⟨all, s₂⟩ ⟨le₂, more₂⟩
    dsimp only at le₂ more₂ ⊢
    apply Ends.ite (fun _ => Ends.pure le₂)
    intro second
    exact ih (more₂ (Bool.eq_false_iff.mpr second))

theorem getInlineErrorInfo_ends (bounded : Bounded dump) (depotFits : DepotFits depot)
    (classes : SizeClasses) {fuel : Nat} (enough : blockSteps ≤ fuel)
    (le : s.Valid) (minDistance maxDistance : Nat) :
    Ends (getInlineErrorInfo dump depot classes fuel s minDistance maxDistance) Reporting.Valid := by
  unfold getInlineErrorInfo
  apply (findNearestBlock_ends (untagPointer_lt _) enough).bind
  intro info block
  have bound : info.blockBegin < 2 ^ 64 := by
    rcases block with rfl | inside
    · exact Nat.two_pow_pos 64
    · have below := inside.below
      have region := inside.region
      omega
  apply Ends.ite (fun _ => Ends.pure le)
  intro different
  have room := lt_of_le_of_ne le different
  have own : Ends (if minDistance = 0 then checkOOB dump depot info s info.blockBegin
      else pure (false, s)) Room :=
    Ends.ite (fun _ => checkOOB_ends bounded depotFits bound room)
      fun _ => Ends.pure ⟨le, fun _ => room⟩
  apply own.bind
  rintro ⟨all, s₁⟩ ⟨le₁, more₁⟩
  dsimp only at le₁ more₁ ⊢
  apply Ends.ite (fun _ => Ends.pure le₁)
  intro first
  exact checkDistances_ends bounded depotFits (more₁ (Bool.eq_false_iff.mpr first)) _

end Inline

section Ring

variable {page : PageSize} {faultAddr : Nat} {depot : StackDepot} {ring : Buffer} {s : Reporting}

theorem reported_ends (le : s.Valid) (address : Nat) :
    Ends (reported s address) fun _ => True := by
  unfold reported
  apply Ends.anyM
  intro j member
  apply (getAt_ends ((List.mem_range.mp member).trans_le le)).bind
  intro r _
  exact Ends.pure trivial

theorem skipsEntry_ends (le : s.Valid)
    (entryPtr entrySize deallocationTid : Nat) :
    Ends (skipsEntry page faultAddr s entryPtr entrySize deallocationTid) fun _ => True := by
  unfold skipsEntry
  apply Ends.ite (fun _ => Ends.pure trivial)
  intro _
  apply Ends.ite (fun _ => Ends.pure trivial)
  intro _
  exact reported_ends le _

/-- The entries lie in the buffer. -/
theorem loadEntry_ends {n offset bytes : Nat} (inside : n < ringBufferElementsFromBytes ring.size)
    (field : offset + bytes ≤ ringEntryBytes) : Ends (loadEntry ring n offset bytes) fun _ => True := by
  have room : ringBufferBytes + ringEntryBytes * ringBufferElementsFromBytes ring.size ≤
      ring.size := by
    unfold ringBufferElementsFromBytes ringBufferBytes ringEntryBytes at inside ⊢
    split_ifs at inside ⊢ with short
    · exact absurd inside (Nat.not_lt_zero _)
    · omega
  exact (Buffer.loadAt_ends inside field room).mono fun _ _ => trivial

theorem checkEntry_ends {size mask n : Nat} (fits : depot.Fits size mask)
    (inside : n < ringBufferElementsFromBytes ring.size)
    (room : s.nextErrorReport < numErrorReports) :
    Ends (checkEntry page faultAddr depot ring s n) Reporting.Valid := by
  have valid : s.Valid := room.le
  unfold checkEntry
  apply (loadEntry_ends inside (by decide)).bind
  intro entryPtr _
  apply Ends.ite (fun _ => Ends.pure valid)
  intro _
  apply (loadEntry_ends inside (by decide)).bind
  intro entrySize _
  apply (loadEntry_ends inside (by decide)).bind
  intro allocationTrace _
  apply (loadEntry_ends inside (by decide)).bind
  intro allocationTid _
  apply (loadEntry_ends inside (by decide)).bind
  intro deallocationTrace _
  apply (loadEntry_ends inside (by decide)).bind
  intro deallocationTid _
  apply (skipsEntry_ends valid _ _ _).bind
  intro skips _
  apply Ends.ite (fun _ => Ends.pure valid)
  intro _
  apply (getAt_ends room).bind
  intro r _
  apply (fits.collectTraceMaybe_ends _ _).bind
  intro allocated _
  apply (fits.collectTraceMaybe_ends _ _).bind
  intro deallocated _
  apply (setAt_ends room).bind
  intro reports _
  exact Ends.pure (Nat.succ_le_of_lt room)

/-- The iterations that the loop over the entries may need at most. -/
def ringSteps (ring : Option Buffer) : Nat :=
  (ring.map fun ring => ringBufferElementsFromBytes ring.size).getD 0 + 1

/-- The place of the loop comes one closer to the last one, wherever the counter wraps. -/
theorem place_pred {place last : Nat} (bound : place < 2 ^ 64) (lastBound : last < 2 ^ 64)
    (different : place ≠ last) :
    wsub 64 (wsub 64 place 1) last < wsub 64 place last := by
  unfold wsub wrap
  omega

theorem getRingBufferErrorInfo_ends {depot : Option StackDepot} (depotFits : DepotFits depot)
    {ring : Option Buffer} {fuel : Nat} (enough : ringSteps ring ≤ fuel)
    (le : s.Valid) :
    Ends (getRingBufferErrorInfo page faultAddr depot ring fuel s) Reporting.Valid := by
  unfold getRingBufferErrorInfo
  cases ring with
  | none => exact Ends.pure le
  | some ring =>
    cases depot with
    | none => exact Ends.pure le
    | some depot =>
      obtain ⟨size, mask, fits⟩ := depotFits depot rfl
      change ringBufferElementsFromBytes ring.size + 1 ≤ fuel at enough
      have whole := ring.size_lt
      apply Ends.ite (fun _ => Ends.pure le)
      intro some_
      have header : ringBufferBytes + ringBufferElementsFromBytes ring.size * ringEntryBytes ≤
          ring.size := by
        unfold ringBufferElementsFromBytes ringBufferBytes ringEntryBytes at some_ ⊢
        split_ifs at some_ ⊢ with short
        · exact absurd rfl some_
        · omega
      unfold ringBufferBytes ringEntryBytes at header
      have pos : Ends (ring.load 8 56) _ := Buffer.load_ends (by decide) (by omega)
      apply pos.bind
      intro pos _
      have firstBound : wsub 64 pos 1 < 2 ^ 64 := wrap_lt 64 _
      generalize wsub 64 pos 1 = first at firstBound ⊢
      have lastBound : wsub 64 first (ringBufferElementsFromBytes ring.size) < 2 ^ 64 :=
        wrap_lt 64 _
      have distance : wsub 64 first (wsub 64 first (ringBufferElementsFromBytes ring.size)) =
          ringBufferElementsFromBytes ring.size := by
        unfold wsub wrap
        omega
      have entries : Ends (loop Fault.exhausted
          (fun state : Nat × Reporting => decide (state.1 ≠
            wsub 64 first (ringBufferElementsFromBytes ring.size)) &&
              decide (state.2.nextErrorReport ≠ numErrorReports))
          (fun state => do
            let s ← checkEntry page faultAddr depot ring state.2
              (state.1 % ringBufferElementsFromBytes ring.size)
            return (wsub 64 state.1 1, s))
          fuel (first, s)) fun state => state.2.Valid := by
        refine (Ends.loop (fun state => state.1 < 2 ^ 64 ∧ state.2.Valid)
          (fun state => wsub 64 state.1 (wsub 64 first (ringBufferElementsFromBytes ring.size)))
          ?_ ⟨firstBound, le⟩ (by rw [distance]; exact enough)).mono fun state ended => ended.1.2
        intro state inv more
        rw [Bool.and_eq_true, decide_eq_true_iff, decide_eq_true_iff] at more
        apply (checkEntry_ends fits (Nat.mod_lt _ (Nat.pos_of_ne_zero some_))
          (lt_of_le_of_ne inv.2 more.2)).bind
        intro s le
        exact Ends.pure ⟨⟨wrap_lt 64 _, le⟩, place_pred inv.1 lastBound more.1⟩
      apply entries.bind
      intro last valid
      exact Ends.pure valid

end Ring

section Main

variable (classes : SizeClasses) (page : PageSize) (dump : CrashDump) {fuel : Nat}

/-- The iterations that any loop may need. -/
def enoughSteps (dump : CrashDump) : Nat := max blockSteps (ringSteps dump.ringBuffer)

theorem getErrorInfo_ends (small : dump.memory.size ≤ 2 ^ 47) (enough : enoughSteps dump ≤ fuel) :
    Ends (getErrorInfo classes page dump fuel) Reporting.Valid := by
  obtain ⟨blocks, entries⟩ := max_le_iff.mp enough
  have empty : Reporting.start.Valid := Nat.zero_le _
  unfold getErrorInfo
  apply Ends.ite (fun _ => Ends.pure empty)
  intro ordered
  have bounded : Bounded dump := by
    refine ⟨?_, small⟩
    by_contra wraps
    rw [wadd_ite dump.memoryAddr_lt dump.memory.size_lt, if_neg wraps] at ordered
    have whole := dump.memory.size_lt
    omega
  apply (checkDepot_ends dump.depot).bind
  intro depot isDepot
  cases depot with
  | none => exact Ends.pure empty
  | some depot =>
    have depotFits := isDepot _ (Option.mem_some_self _)
    have close : Ends (if extractTag dump.faultAddr ≠ 0 then
        getInlineErrorInfo dump depot classes fuel Reporting.start 0 2
        else return Reporting.start : Checked Reporting) Reporting.Valid :=
      Ends.ite (fun _ => getInlineErrorInfo_ends bounded depotFits classes blocks empty 0 2)
        fun _ => Ends.pure empty
    apply close.bind
    intro s le
    apply (getRingBufferErrorInfo_ends depotFits entries le).bind
    intro s le
    exact Ends.ite (fun _ => getInlineErrorInfo_ends bounded depotFits classes blocks le 2 16)
      fun _ => Ends.pure le

/-- With any content of what it is given `getErrorInfo` ends with at most three reports, and the
block that it starts from is whole and in its region, where there is a region close to the fault. -/
theorem error_info_tolerates_corruption (small : dump.memory.size ≤ 2 ^ 47)
    (enough : enoughSteps dump ≤ fuel) :
    (∃ s, getErrorInfo classes page dump fuel = .ok s ∧ s.Valid) ∧
      ∃ b, findNearestBlock classes dump.regions (untagPointer dump.faultAddr) fuel = .ok b ∧
        (b = ⟨0, 0, 0, 0⟩ ∨ b.Inside) :=
  ⟨getErrorInfo_ends classes page dump small enough,
    findNearestBlock_ends (untagPointer_lt _) ((Nat.le_max_left _ _).trans enough)⟩

/-- A region of two blocks of 32 bytes of which the first one is allocated, with the tag 1, and a
fault just after its chunk. -/
def overflowDump : CrashDump where
  faultAddr := 2 ^ 56 + 65568
  depot := none
  regions i := ⟨65536, if i = 1 then 64 else 0, by decide, by split_ifs <;> decide⟩
  ringBuffer := none
  memory := ⟨64, fun i => [0x01, 0x01, 0x01].getD i 0, by decide⟩
  memoryTags := ⟨4, fun i => if i = 1 then 1 else 0, by decide⟩
  memoryAddr := 65536
  faultAddr_lt := by decide
  memoryAddr_lt := by decide
  tags := by decide

theorem error_info_tolerates_corruption_overflow :
    (∃ s, getErrorInfo androidSizeClassMap PageSize.small overflowDump blockSteps = .ok s ∧
      s.Valid) ∧
    ∃ b, findNearestBlock androidSizeClassMap overflowDump.regions
        (untagPointer overflowDump.faultAddr) blockSteps = .ok b ∧
      (b = ⟨0, 0, 0, 0⟩ ∨ b.Inside) :=
  error_info_tolerates_corruption androidSizeClassMap PageSize.small overflowDump (by decide)
    (by decide)

example : (getErrorInfo androidSizeClassMap PageSize.small overflowDump blockSteps).map
    (fun s => (s.nextErrorReport, s.reports[0].errorType, s.reports[0].allocationAddress)) =
      .ok (1, .bufferOverflow, 65552) := by
  decide +kernel

end Main

end Scudo.ErrorInfo
