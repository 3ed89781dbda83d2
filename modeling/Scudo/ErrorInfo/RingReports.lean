import Scudo.ErrorInfo.RingBuffer

/-!
What `getRingBufferErrorInfo` makes of the buffer at any time: the entries that explain the fault, the
newest ones first, as far as there is room for reports.
-/

namespace Scudo.ErrorInfo
open Scudo.Lib Scudo.Chunk SlotRing
open Scudo.Lib.Checked

/-- The addresses that the reports name. -/
def Reporting.addresses (s : Reporting) : List Nat :=
  (List.range s.nextErrorReport).map fun j => (s.reports[j]?.map ErrorReport.allocationAddress).getD 0

/-- Whether the entry of a chunk explains the fault: after its release inside of it, before that up to a
page beside it, where no report names the chunk. -/
def Entry.explains (page : PageSize) (faultAddr : Nat) (addresses : List Nat) (e : Entry) : Bool :=
  if e.deallocationTid ≠ 0 then
    decide (e.ptr.toNat ≤ faultAddr ∧ faultAddr < wadd 64 e.ptr.toNat e.allocationSize.toNat)
  else decide (wsub 64 e.ptr.toNat page.bytes ≤ faultAddr ∧
    faultAddr < wadd 64 (wadd 64 e.ptr.toNat e.allocationSize.toNat) page.bytes ∧
    untagPointer e.ptr.toNat ∉ addresses)

/-- The first entries that explain the fault, as many as there is room for. -/
def explanations (page : PageSize) (faultAddr : Nat) : List Entry → Nat → List Nat → List Entry
  | [], _, _ => []
  | e :: rest, room, addresses =>
    if room = 0 then []
    else if e.ptr ≠ 0 ∧ e.explains page faultAddr addresses = true then
      e :: explanations page faultAddr rest (room - 1) (addresses ++ [untagPointer e.ptr.toNat])
    else explanations page faultAddr rest room addresses

/-- What a report says of an entry. -/
structure Entry.Reported (e : Entry) (faultAddr : Nat) (report : ErrorReport) : Prop where
  errorType : report.errorType = if e.deallocationTid ≠ 0 then .useAfterFree
    else if faultAddr < e.ptr.toNat then .bufferUnderflow else .bufferOverflow
  address : report.allocationAddress = untagPointer e.ptr.toNat
  size : report.allocationSize = e.allocationSize.toNat
  allocationTid : report.allocationTid = e.allocationTid.toNat
  deallocationTid : report.deallocationTid = e.deallocationTid.toNat

/-- One report for each of the entries, behind those that were there. -/
structure Found (faultAddr : Nat) (s t : Reporting) (entries : List Entry) : Prop where
  next : t.nextErrorReport = s.nextErrorReport + entries.length
  kept : ∀ j (inside : j < numErrorReports), j < s.nextErrorReport → t.reports[j] = s.reports[j]
  found : ∀ i (inside : i < entries.length) (room : s.nextErrorReport + i < numErrorReports),
    entries[i].Reported faultAddr t.reports[s.nextErrorReport + i]

section Found

variable {faultAddr : Nat} {s s' t : Reporting} {e : Entry} {entries : List Entry} {report : ErrorReport}

theorem Found.nil (s : Reporting) : Found faultAddr s s [] :=
  ⟨rfl, fun _ _ _ => rfl, fun _ inside => absurd inside (Nat.not_lt_zero _)⟩

theorem Found.cons (adds : s.Adds s' report) (reported : e.Reported faultAddr report)
    (found : Found faultAddr s' t entries) : Found faultAddr s t (e :: entries) := by
  have step := adds.next
  constructor
  · rw [found.next, step, List.length_cons]
    omega
  · intro j inside below
    rw [found.kept j inside (by omega)]
    exact adds.kept j inside below.ne
  · intro i inside room
    cases i with
    | zero =>
      rw [List.getElem_cons_zero]
      change e.Reported faultAddr t.reports[s.nextErrorReport]
      rw [found.kept s.nextErrorReport room (by omega), adds.added room]
      exact reported
    | succ i =>
      rw [List.getElem_cons_succ]
      have value := found.found i (Nat.lt_of_succ_lt_succ inside) (by omega)
      have place : s'.nextErrorReport + i = s.nextErrorReport + (i + 1) := by omega
      simp only [place] at value
      exact value

theorem addresses_adds (adds : s.Adds s' report) (room : s.nextErrorReport < numErrorReports) :
    s'.addresses = s.addresses ++ [report.allocationAddress] := by
  unfold Reporting.addresses
  rw [adds.next, List.range_succ, List.map_append, List.map_singleton, Vector.getElem?_eq_getElem room,
    adds.added room]
  refine congrArg (· ++ [_]) (List.map_congr_left fun j member => ?_)
  have below := List.mem_range.mp member
  rw [Vector.getElem?_eq_getElem (by omega), Vector.getElem?_eq_getElem (by omega),
    adds.kept j (by omega) below.ne]

end Found

section Entries

variable {page : PageSize} {faultAddr : Nat} {depot : StackDepot} {ring : Buffer} {s : Reporting}
  {bytes : Nat → UInt8} {size n : Nat}

/-- The buffer that was copied has the entries of the one that is written. -/
structure CopyOf (ring : Buffer) (bytes : Nat → UInt8) (size : Nat) : Prop where
  size : ring.size = getRingBufferEntry size
  bytes : ∀ a < ring.size, ring.byte a = bytes a

theorem CopyOf.elements (copy : CopyOf ring bytes size) : ringBufferElementsFromBytes ring.size = size := by
  unfold ringBufferElementsFromBytes
  rw [copy.size]
  unfold getRingBufferEntry ringBufferBytes ringEntryBytes
  rw [if_neg (by omega)]
  omega

theorem CopyOf.inside (copy : CopyOf ring bytes size) (inside : n < size) :
    getRingBufferEntry n + 32 ≤ ring.size := by
  rw [copy.size]
  unfold getRingBufferEntry ringEntryBytes
  omega

theorem CopyOf.load64 (copy : CopyOf ring bytes size) {index : Nat} (inside : index + 8 ≤ ring.size) :
    ring.load 8 index = .ok (Chunk.load64 bytes index).toNat := by
  unfold Buffer.load
  rw [if_pos ⟨Int.natCast_nonneg _, by omega⟩, Int.toNat_natCast]
  exact congrArg Except.ok (littleEndian_eight fun k lt => copy.bytes _ (by omega))

theorem CopyOf.load32 (copy : CopyOf ring bytes size) {index : Nat} (inside : index + 4 ≤ ring.size) :
    ring.load 4 index = .ok (Chunk.load32 bytes index).toNat := by
  unfold Buffer.load
  rw [if_pos ⟨Int.natCast_nonneg _, by omega⟩, Int.toNat_natCast]
  exact congrArg Except.ok (littleEndian_four fun k lt => copy.bytes _ (by omega))

theorem CopyOf.loadEntry64 (copy : CopyOf ring bytes size) (inside : n < size) {offset : Nat}
    (field : offset + 8 ≤ 32) :
    loadEntry ring n offset 8 = .ok (Chunk.load64 bytes (getRingBufferEntry n + offset)).toNat := by
  have room := copy.inside inside
  unfold loadEntry Buffer.loadAt
  rw [copy.elements, if_pos inside]
  change ring.load 8 (getRingBufferEntry n + offset : Nat) = _
  exact copy.load64 (by omega)

theorem CopyOf.loadEntry32 (copy : CopyOf ring bytes size) (inside : n < size) {offset : Nat}
    (field : offset + 4 ≤ 32) :
    loadEntry ring n offset 4 = .ok (Chunk.load32 bytes (getRingBufferEntry n + offset)).toNat := by
  have room := copy.inside inside
  unfold loadEntry Buffer.loadAt
  rw [copy.elements, if_pos inside]
  change ring.load 4 (getRingBufferEntry n + offset : Nat) = _
  exact copy.load32 (by omega)

theorem anyM_ok {α : Type} {test : α → Checked Bool} {value : α → Bool} {list : List α}
    (each : ∀ a ∈ list, test a = .ok (value a)) : list.anyM test = .ok (list.any value) := by
  induction list with
  | nil => rfl
  | cons first rest ih =>
    rw [List.anyM, each first List.mem_cons_self, ok_bind, List.any_cons]
    cases value first with
    | true => rfl
    | false => exact ih fun a member => each a (List.mem_cons_of_mem _ member)

theorem reported_eq (valid : s.Valid) (address : Nat) :
    reported s address = .ok (decide (address ∈ s.addresses)) := by
  have each : ∀ j ∈ List.range s.nextErrorReport, (do
      let r ← getAt s.reports j
      return r.allocationAddress == address : Checked Bool) =
        .ok ((s.reports[j]?.map ErrorReport.allocationAddress).getD 0 == address) := by
    intro j member
    have inside : j < numErrorReports := lt_of_lt_of_le (List.mem_range.mp member) valid
    unfold getAt
    rw [dif_pos inside, ok_bind, Vector.getElem?_eq_getElem inside]
    rfl
  unfold reported
  rw [anyM_ok each]
  congr 1
  rw [Bool.eq_iff_iff, List.any_eq_true, decide_eq_true_iff]
  unfold Reporting.addresses
  rw [List.mem_map]
  simp only [beq_iff_eq]

theorem skipsEntry_eq (valid : s.Valid) (e : Entry) :
    skipsEntry page faultAddr s e.ptr.toNat e.allocationSize.toNat e.deallocationTid.toNat =
      .ok (!e.explains page faultAddr s.addresses) := by
  have released : e.deallocationTid.toNat ≠ 0 ↔ e.deallocationTid ≠ 0 :=
    not_congr (BitVec.toNat_inj (y := 0))
  unfold skipsEntry Entry.explains
  by_cases freed : e.deallocationTid ≠ 0
  · rw [if_pos (released.mpr freed), if_pos freed]
    refine congrArg Except.ok ?_
    rw [← decide_not, decide_eq_decide]
    omega
  · rw [if_neg (mt released.mp freed), if_neg freed, reported_eq valid]
    split_ifs with beside
    · refine congrArg Except.ok ?_
      rw [← decide_not, eq_comm, decide_eq_true_iff]
      omega
    · refine congrArg Except.ok ?_
      rw [← decide_not, decide_eq_decide]
      constructor
      · rintro named ⟨-, -, unnamed⟩
        exact unnamed named
      · intro not_
        by_contra unnamed
        exact not_ ⟨by omega, by omega, unnamed⟩

/-- What one entry does: it is passed over, or gives a report. -/
def Visits (page : PageSize) (faultAddr : Nat) (s : Reporting) (e : Entry) (t : Reporting) : Prop :=
  if e.ptr ≠ 0 ∧ e.explains page faultAddr s.addresses = true then
    ∃ report, s.Adds t report ∧ e.Reported faultAddr report
  else t = s

theorem checkEntry_visits {depotSize mask : Nat} (fits : depot.Fits depotSize mask)
    (copy : CopyOf ring bytes size) (inside : n < size) (room : s.nextErrorReport < numErrorReports) :
    Ends (checkEntry page faultAddr depot ring s n) (Visits page faultAddr s (entryAt bytes n)) := by
  have ptr := copy.loadEntry64 inside (by decide : 0 + 8 ≤ 32)
  have allocationSize := copy.loadEntry64 inside (by decide : 8 + 8 ≤ 32)
  have allocationTrace := copy.loadEntry32 inside (by decide : 16 + 4 ≤ 32)
  have allocationTid := copy.loadEntry32 inside (by decide : 20 + 4 ≤ 32)
  have deallocationTrace := copy.loadEntry32 inside (by decide : 24 + 4 ≤ 32)
  have deallocationTid := copy.loadEntry32 inside (by decide : 28 + 4 ≤ 32)
  change loadEntry ring n 0 8 = .ok (entryAt bytes n).ptr.toNat at ptr
  change loadEntry ring n 8 8 = .ok (entryAt bytes n).allocationSize.toNat at allocationSize
  change loadEntry ring n 20 4 = .ok (entryAt bytes n).allocationTid.toNat at allocationTid
  change loadEntry ring n 28 4 = .ok (entryAt bytes n).deallocationTid.toNat at deallocationTid
  generalize entryAt bytes n = e at *
  have null : e.ptr.toNat = 0 ↔ e.ptr = 0 := BitVec.toNat_inj (y := 0)
  have released : e.deallocationTid.toNat ≠ 0 ↔ e.deallocationTid ≠ 0 :=
    not_congr (BitVec.toNat_inj (y := 0))
  have passed (not_ : ¬(e.ptr ≠ 0 ∧ e.explains page faultAddr s.addresses = true)) :
      Visits page faultAddr s e s := by
    unfold Visits
    rw [if_neg not_]
  unfold checkEntry
  rw [ptr, ok_bind]
  by_cases zero : e.ptr = 0
  · rw [if_pos (null.mpr zero)]
    exact Ends.pure (passed fun both => both.1 zero)
  · rw [if_neg (mt null.mp zero), allocationSize, ok_bind, allocationTrace, ok_bind, allocationTid, ok_bind,
      deallocationTrace, ok_bind, deallocationTid, ok_bind, skipsEntry_eq room.le, ok_bind]
    by_cases explains : e.explains page faultAddr s.addresses = true
    · rw [explains, if_neg (by decide)]
      apply (getAt_ends room).bind
      intro r _
      apply (fits.collectTraceMaybe_ends _ _).bind
      intro allocated _
      apply (fits.collectTraceMaybe_ends _ _).bind
      intro deallocated _
      have sets (report : ErrorReport) := (setAt_ends room (x := report)).gives
        (⟨fun _ run => setAt_adds run⟩ : Gives _ fun reports => s.Adds ⟨reports, s.nextErrorReport + 1⟩ report)
      apply (sets _).bind
      rintro reports ⟨-, adds⟩
      apply Ends.pure
      unfold Visits
      rw [if_pos ⟨zero, explains⟩]
      refine ⟨_, adds, ⟨?_, rfl, rfl, rfl, rfl⟩⟩
      simp only [released]
    · rw [Bool.eq_false_iff.mpr explains, if_pos (by decide)]
      exact Ends.pure (passed fun both => explains both.2)

theorem wsub_wsub {first k : Nat} (small : k + 1 < 2 ^ 64) :
    wsub 64 (wsub 64 first k) 1 = wsub 64 first (k + 1) := by
  unfold wsub wrap
  omega

/-- The loop over the entries, from the one of age `k` on. -/
theorem walk {depotSize mask : Nat} (fits : depot.Fits depotSize mask) (copy : CopyOf ring bytes size)
    (small : size < 2 ^ 64) (first m : Nat) {k fuel : Nat} (all : k + m = size) (enough : m < fuel)
    (valid : s.Valid) :
    Ends (loop Fault.exhausted
      (fun state : Nat × Reporting => decide (state.1 ≠ wsub 64 first size) &&
        decide (state.2.nextErrorReport ≠ numErrorReports))
      (fun state => do
        let s ← checkEntry page faultAddr depot ring state.2 (state.1 % size)
        return (wsub 64 state.1 1, s))
      fuel (wsub 64 first k, s)) fun last => Found faultAddr s last.2
        (explanations page faultAddr ((List.range' k m).map fun age => entryAt bytes (wsub 64 first age % size))
          (numErrorReports - s.nextErrorReport) s.addresses) := by
  induction m generalizing k s fuel with
  | zero =>
    obtain ⟨fuel, rfl⟩ := Nat.exists_eq_succ_of_ne_zero enough.ne'
    rw [loop_stop]
    · exact Ends.ok (Found.nil s)
    · rw [← all, Nat.add_zero, decide_eq_false (not_not.mpr rfl), Bool.false_and]
  | succ m ih =>
    obtain ⟨fuel, rfl⟩ := Nat.exists_eq_succ_of_ne_zero (Nat.ne_zero_of_lt enough)
    rw [List.range'_succ, List.map_cons]
    by_cases full : s.nextErrorReport = numErrorReports
    · rw [loop_stop]
      · rw [full, Nat.sub_self]
        exact Ends.ok (Found.nil s)
      · rw [decide_eq_false (not_not.mpr full), Bool.and_false]
    · have room : s.nextErrorReport < numErrorReports := lt_of_le_of_ne valid full
      have other : wsub 64 first k ≠ wsub 64 first size := by
        unfold wsub wrap
        omega
      have inside : wsub 64 first k % size < size := Nat.mod_lt _ (by omega)
      rw [loop_go]
      · rw [bind_assoc]
        apply (checkEntry_visits fits copy inside room).bind
        intro next visits
        rw [pure_bind, wsub_wsub (by omega)]
        unfold Visits at visits
        unfold explanations
        rw [if_neg (by omega)]
        have rest : k + 1 + m = size := by omega
        have left : m < fuel := Nat.lt_of_succ_lt_succ enough
        split_ifs at visits ⊢ with explains
        · obtain ⟨report, adds, reported⟩ := visits
          have valid : next.Valid := le_of_eq_of_le adds.next (Nat.succ_le_of_lt room)
          have one : numErrorReports - next.nextErrorReport = numErrorReports - s.nextErrorReport - 1 := by
            rw [adds.next, Nat.sub_sub]
          have later := ih rest left valid
          rw [addresses_adds adds room, reported.address, one] at later
          exact later.mono fun last found => found.cons adds reported
        · rw [visits]
          exact ih rest left valid
      · rw [decide_eq_true other, decide_eq_true full, Bool.and_self]

/-- Blank entries explain nothing. -/
theorem explanations_filterMap {α : Type} {entry : α → Entry} {view : α → Option Entry} {list : List α}
    (shows : ∀ a ∈ list, (∀ e, view a = some e → entry a = e) ∧ (view a = none → (entry a).ptr = 0))
    (room : Nat) (addresses : List Nat) :
    explanations page faultAddr (list.map entry) room addresses =
      explanations page faultAddr (list.filterMap view) room addresses := by
  induction list generalizing room addresses with
  | nil => rfl
  | cons first rest ih =>
    have here := shows first List.mem_cons_self
    have later := ih fun a member => shows a (List.mem_cons_of_mem _ member)
    rw [List.map_cons]
    cases seen : view first with
    | none =>
      rw [List.filterMap_cons_none seen, ← later]
      have blank := here.2 seen
      conv_lhs => unfold explanations
      split_ifs with full explains
      · rw [full]
        cases rest <;> rfl
      · exact absurd blank explains.1
      · rfl
    | some e =>
      rw [List.filterMap_cons_some seen, here.1 e seen]
      unfold explanations
      rw [later, later]

end Entries

section Main

variable {τ : Type} [DecidableEq τ] {page : PageSize} {faultAddr size : Nat} {s : RingState τ} {depot : StackDepot}
  {ring : Buffer} {r : Reporting}

/-- Before all places were taken the walk goes on behind the first entry, at this number. -/
theorem beyond_eq {length age : Nat} (inside : age < size) (small : size < 2 ^ 32)
    (beyond : length ≤ age) : wsub 64 (wsub 64 length 1) age = 2 ^ 64 + length - 1 - age := by
  unfold wsub wrap
  omega

/-- Where the number of entries is a power of two the walk finds unused places there. -/
theorem stale_place {length age : Nat} (divides : size ∣ 2 ^ 64) (inside : age < size)
    (beyond : length ≤ age) : (2 ^ 64 + length - 1 - age) % size = size + length - 1 - age := by
  obtain ⟨turns, whole⟩ := divides
  have some_ : 0 < turns := by
    by_contra none_
    rw [Nat.eq_zero_of_not_pos none_, Nat.mul_zero] at whole
    exact absurd whole (Nat.two_pow_pos 64).ne'
  obtain ⟨turns, rfl⟩ := Nat.exists_eq_succ_of_ne_zero some_.ne'
  have value : 2 ^ 64 + length - 1 - age = size + length - 1 - age + size * turns := by
    rw [Nat.mul_succ] at whole
    omega
  rw [value, Nat.add_mul_mod_self_left]
  exact Nat.mod_eq_of_lt (by omega)

/-- What a walk over the buffer finds: the entries from the newest one on, and behind the first one,
where fewer were stored than there are places, what is at the places that the walk goes on with. -/
structure Seen (size : Nat) (s : RingState τ) (view : Nat → Option Entry) : Prop where
  recent : ∀ age < size, age < s.log.length → Shown size s.ring (s.log.length - 1 - age) (view age)
  again : ∀ age < size, s.log.length ≤ age → (2 ^ 64 + s.log.length - 1 - age) % size < s.log.length →
    Shown size s.ring ((2 ^ 64 + s.log.length - 1 - age) % size) (view age)
  unused : ∀ age < size, s.log.length ≤ age → s.log.length ≤ (2 ^ 64 + s.log.length - 1 - age) % size →
    view age = none

omit [DecidableEq τ] in
/-- With a power of two of entries nothing is seen again. -/
theorem Seen.eq_none {view : Nat → Option Entry} (seen : Seen size s view) (divides : size ∣ 2 ^ 64)
    {age : Nat} (inside : age < size) (beyond : s.log.length ≤ age) : view age = none := by
  apply seen.unused age inside beyond
  rw [stale_place divides inside beyond]
  omega

/-- In every state of the ring buffer, whatever entries are being written, what `getRingBufferErrorInfo`
reports from a copy of it are entries that were stored as a whole: the first ones from the newest on that
explain the fault. An entry that is written at the time is passed over, or is the older one in its
place. Where fewer entries were stored than there are places, and the number of places is no power of
two, the walk comes to some of them again. -/
theorem ring_buffer_reports (reached : (ringSystem size τ).Reachable s) (positive : 0 < size)
    (small : size < 2 ^ 32) (copy : CopyOf ring s.bytes size)
    {depotSize mask : Nat} (fits : depot.Fits depotSize mask) (valid : r.Valid) {fuel : Nat}
    (enough : size < fuel) :
    ∃ view : Nat → Option Entry, Seen size s view ∧
      (size ∣ 2 ^ 64 → ∀ age < size, s.log.length ≤ age → view age = none) ∧
      ∃ t, getRingBufferErrorInfo page faultAddr (some depot) (some ring) fuel r = .ok t ∧
        Found faultAddr r t (explanations page faultAddr ((List.range size).filterMap view)
          (numErrorReports - r.nextErrorReport) r.addresses) := by
  obtain ⟨ringReached, position, short⟩ := ring_reachable reached
  have sound := SlotRing.reachable_sound entryWriter_lawful positive ringReached
  have first : (load64 s.bytes posOffset).toNat = s.log.length := position
  -- the entry of a place that was taken, and what is shown of it
  have shows : ∀ i, i < s.log.length → s.log.length ≤ i + size → ∃ view : Option Entry,
      Shown size s.ring i view ∧ (∀ e, view = some e → entryAt s.bytes (i % size) = e) ∧
        (view = none → (entryAt s.bytes (i % size)).ptr = 0) :=
    fun i inside near => sound.shown entryWriter_lawful inside near
  have each : ∀ age, ∃ view : Option Entry,
      (age < size → age < s.log.length → Shown size s.ring (s.log.length - 1 - age) view) ∧
      (age < size → s.log.length ≤ age → (2 ^ 64 + s.log.length - 1 - age) % size < s.log.length →
        Shown size s.ring ((2 ^ 64 + s.log.length - 1 - age) % size) view) ∧
      (age < size → s.log.length ≤ age → s.log.length ≤ (2 ^ 64 + s.log.length - 1 - age) % size →
        view = none) ∧
      (age < size → (∀ e, view = some e →
        entryAt s.bytes (wsub 64 (wsub 64 s.log.length 1) age % size) = e) ∧
        (view = none → (entryAt s.bytes (wsub 64 (wsub 64 s.log.length 1) age % size)).ptr = 0)) := by
    intro age
    by_cases inside : age < size
    · rcases Nat.lt_or_ge age s.log.length with recent | beyond
      · have place : wsub 64 (wsub 64 s.log.length 1) age = s.log.length - 1 - age := by
          have newest : wsub 64 s.log.length 1 = s.log.length - 1 := wsub_eq short (by omega)
          rw [newest, wsub_eq (by omega) (by omega)]
        obtain ⟨view, shown, reads⟩ := shows (s.log.length - 1 - age) (by omega) (by omega)
        rw [place]
        exact ⟨view, fun _ _ => shown, fun _ old => absurd old (Nat.not_le.mpr recent),
          fun _ old => absurd old (Nat.not_le.mpr recent), fun _ => reads⟩
      · rw [beyond_eq inside small beyond]
        have less : (2 ^ 64 + s.log.length - 1 - age) % size < size := Nat.mod_lt _ positive
        rcases Nat.lt_or_ge ((2 ^ 64 + s.log.length - 1 - age) % size) s.log.length with taken | unused
        · obtain ⟨view, shown, reads⟩ := shows _ taken (by omega)
          rw [Nat.mod_eq_of_lt less] at reads
          exact ⟨view, fun _ recent => absurd recent (Nat.not_lt.mpr beyond), fun _ _ _ => shown,
            fun _ _ free => absurd free (Nat.not_le.mpr taken), fun _ => reads⟩
        · have blank := sound.fresh _ less unused
          exact ⟨none, fun _ recent => absurd recent (Nat.not_lt.mpr beyond),
            fun _ _ taken => absurd taken (Nat.not_lt.mpr unused), fun _ _ _ => rfl,
            fun _ => ⟨nofun, fun _ => blank⟩⟩
    · exact ⟨none, fun less => absurd less inside, fun less => absurd less inside,
        fun less => absurd less inside, fun less => absurd less inside⟩
  choose view recent again unused reads using each
  have seen : Seen size s view := ⟨recent, again, unused⟩
  refine ⟨view, seen, fun divides age inside beyond => seen.eq_none divides inside beyond, ?_⟩
  have pos : ring.load 8 56 = .ok s.log.length := by
    have word := copy.load64 (by rw [copy.size]; unfold getRingBufferEntry ringBufferBytes; omega : 56 + 8 ≤ _)
    change ring.load 8 56 = .ok (load64 s.bytes posOffset).toNat at word
    rw [word, first]
  have start : wsub 64 (wsub 64 s.log.length 1) 0 = wsub 64 s.log.length 1 := by
    unfold wsub wrap
    omega
  obtain ⟨last, run, found⟩ := @walk page faultAddr depot ring r s.bytes size depotSize mask fits copy
    (by omega) (wsub 64 s.log.length 1) size 0 fuel (Nat.zero_add size) enough valid
  rw [start] at run
  have same := @explanations_filterMap page faultAddr Nat
    (fun age => entryAt s.bytes (wsub 64 (wsub 64 s.log.length 1) age % size)) view (List.range size)
    (fun age member => reads age (List.mem_range.mp member)) (numErrorReports - r.nextErrorReport) r.addresses
  rw [← List.range_eq_range', same] at found
  refine ⟨last.2, ?_, found⟩
  unfold getRingBufferErrorInfo
  dsimp only
  rw [copy.elements, if_neg positive.ne', pos, ok_bind, run, ok_bind]
  rfl

/-- A call that has its position can store the rest of its entry. -/
theorem call_finishes {t : τ} {pos : Nat} {e : Entry} (left : Nat) {k : Nat}
    (reached : (ringSystem size τ).Reachable s) (get : s.calls t = some (pos, e, k)) (count : k + left = 6) :
    ∃ s', (ringSystem size τ).Reachable s' ∧ s'.log = s.log ∧ s'.calls = Function.update s.calls t none := by
  induction left generalizing s k with
  | zero =>
    obtain rfl : k = 6 := count
    exact ⟨_, reached.step (.publish t pos e get), rfl, rfl⟩
  | succ left ih =>
    obtain ⟨s', reached', log, calls⟩ := ih (reached.step (.store t pos e k get (by omega)))
      (Function.update_self ..) (by omega)
    exact ⟨s', reached', log, calls.trans (Function.update_idem ..)⟩

/-- A call that nobody is in the way of. -/
theorem call_stores {t : τ} (e : Entry) (reached : (ringSystem size τ).Reachable s) (idle : s.calls t = none)
    (room : s.log.length + 1 < 2 ^ 64)
    (free : ∀ u n e' k, s.calls u = some (n, e', k) → n % size ≠ s.log.length % size) :
    ∃ s', (ringSystem size τ).Reachable s' ∧ s'.log = s.log ++ [e] ∧
      s'.calls = Function.update s.calls t none := by
  have get := Function.update_self t (some ((load64 s.bytes posOffset).toNat, e, 0)) s.calls
  obtain ⟨s', reached', log, calls⟩ := call_finishes 6 (reached.step (.fetchAdd t e idle room free)) get rfl
  exact ⟨s', reached', log, calls.trans (Function.update_idem ..)⟩

/-- A chunk of 16 bytes that was released. -/
def releasedEntry : Entry := ⟨0x1000, 16, 5, 1, 6, 2⟩

/-- The least depot, without any trace. -/
def emptyDepot : StackDepot := ⟨⟨40, fun i => if i = 8 ∨ i = 16 then 1 else 0, by decide⟩⟩

theorem emptyDepot_fits : emptyDepot.Fits 1 1 := ⟨rfl, rfl, rfl, by decide, by decide⟩

/-- A large allocation, a page behind the released chunk. -/
def largeEntry : Entry := ⟨0x2000, 64, 5, 1, 0, 0⟩

/-- Of four entries in a buffer for three the first one is overwritten, and the last one is being
written by another thread. -/
def fourEntries : List Entry := [releasedEntry, largeEntry, releasedEntry, releasedEntry]

theorem fourEntries_reachable : ∃ s : RingState Bool, (ringSystem 3 Bool).Reachable s ∧
    s.log = fourEntries ∧ s.calls false = none ∧ s.calls true = some (3, releasedEntry, 1) := by
  have start : (ringSystem 3 Bool).Reachable ⟨fun _ => 0, [], fun _ => none⟩ :=
    .init ⟨fun _ => rfl, rfl, fun _ => rfl⟩
  have alone {s : RingState Bool} (idle : ∀ t, s.calls t = none) (n : Nat) :
      ∀ u m e k, s.calls u = some (m, e, k) → m % 3 ≠ n % 3 :=
    fun u m e k get => absurd ((idle u).symm.trans get) nofun
  have still {s s' : RingState Bool} (idle : ∀ t, s.calls t = none)
      (calls : s'.calls = Function.update s.calls false none) : ∀ t, s'.calls t = none := by
    intro t
    rw [calls]
    cases t with
    | false => exact Function.update_self ..
    | true => exact (Function.update_of_ne (by decide) ..).trans (idle true)
  have idle₀ : ∀ t : Bool, (⟨fun _ => 0, [], fun _ => none⟩ : RingState Bool).calls t = none :=
    fun _ => rfl
  obtain ⟨s₁, reached₁, log₁, calls₁⟩ := call_stores releasedEntry start (idle₀ false) (by decide)
    (alone idle₀ _)
  have idle₁ := still idle₀ calls₁
  obtain ⟨s₂, reached₂, log₂, calls₂⟩ := call_stores largeEntry reached₁ (idle₁ false)
    (by rw [log₁]; decide) (alone idle₁ _)
  have idle₂ := still idle₁ calls₂
  obtain ⟨s₃, reached₃, log₃, calls₃⟩ := call_stores releasedEntry reached₂ (idle₂ false)
    (by rw [log₂, log₁]; decide) (alone idle₂ _)
  have idle₃ := still idle₂ calls₃
  have log : s₃.log = [releasedEntry, largeEntry, releasedEntry] := by
    rw [log₃, log₂, log₁]
    rfl
  have position : (load64 s₃.bytes posOffset).toNat = 3 := by
    rw [(ring_reachable reached₃).2.1, log]
    rfl
  have claimed := reached₃.step (.fetchAdd true releasedEntry (idle₃ true) (by rw [log]; decide)
    (alone idle₃ _))
  rw [position] at claimed
  have get := Function.update_self true (some (3, releasedEntry, 0)) s₃.calls
  refine ⟨_, claimed.step (.store true 3 releasedEntry 0 get (by decide)), ?_, ?_, ?_⟩
  · change s₃.log ++ [releasedEntry] = _
    rw [log]
    rfl
  · change Function.update (Function.update s₃.calls true (some (3, releasedEntry, 0))) true
      (some (3, releasedEntry, 1)) false = none
    rw [Function.update_idem, Function.update_of_ne (by decide)]
    exact idle₃ false
  · change Function.update (Function.update s₃.calls true (some (3, releasedEntry, 0))) true
      (some (3, releasedEntry, 1)) true = _
    exact Function.update_self ..

/-- The entry that is being written is passed over; the chunk that was released before and the
allocation a page behind it are reported. -/
theorem ring_buffer_reports_two : ∃ (s : RingState Bool) (ring : Buffer) (t : Reporting),
    s.log = fourEntries ∧ s.calls true = some (3, releasedEntry, 1) ∧ CopyOf ring s.bytes 3 ∧
      getRingBufferErrorInfo PageSize.small 0x1008 (some emptyDepot) (some ring) 4 Reporting.start = .ok t ∧
      Found 0x1008 Reporting.start t [releasedEntry, largeEntry] := by
  obtain ⟨s, reached, log, idle, busy⟩ := fourEntries_reachable
  have copy : CopyOf ⟨160, s.bytes, by decide⟩ s.bytes 3 := ⟨rfl, fun _ _ => rfl⟩
  obtain ⟨view, seen, -, t, run, found⟩ := @ring_buffer_reports Bool _ PageSize.small 0x1008 3 s
    emptyDepot _ Reporting.start reached (by decide) (by decide) copy 1 1 emptyDepot_fits
    (Nat.zero_le _) 4 (by decide)
  have only : ∀ i u e k, s.ring.pending u = some (i, e, k) → i = 3 ∧ k = 1 := by
    intro i u e k get
    cases u with
    | false => exact absurd (idle.symm.trans get) nofun
    | true =>
      cases busy.symm.trans get
      exact ⟨rfl, rfl⟩
  have length : s.log.length = 4 := by
    rw [log]
    rfl
  have newest : view 0 = none := by
    have shown := seen.recent 0 (by decide) (by omega)
    rw [length] at shown
    exact shown.eq_none busy fun u e get => absurd (only _ u e 0 get).2 (by decide)
  have stored (age : Nat) (inside : age < 3) (behind : 0 < age) (e : Entry)
      (entry : fourEntries[3 - age]? = some e) : view age = some e := by
    have shown := seen.recent age inside (by omega)
    rw [length] at shown
    have there : 4 - 1 - age < s.ring.log.length := by
      change _ < s.log.length
      omega
    rw [shown.eq_stored there fun u e k get => by
      have three := (only _ u e k get).1
      omega]
    rw [← log] at entry
    exact (List.getElem?_eq_getElem there).symm.trans entry
  have entries : (List.range 3).filterMap view = [releasedEntry, largeEntry] := by
    change [0, 1, 2].filterMap view = _
    rw [List.filterMap_cons_none newest, List.filterMap_cons_some (stored 1 (by decide) (by decide) _ rfl),
      List.filterMap_cons_some (stored 2 (by decide) (by decide) _ rfl), List.filterMap_nil]
  rw [entries] at found
  exact ⟨s, _, t, log, busy, copy, run, found⟩

end Main

end Scudo.ErrorInfo
