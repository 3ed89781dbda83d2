import Scudo.Release.Geometry

/-!
A `RegionPageMap` through any number of calls, next to an array of numbers by region and page that
is updated by the same calls.
-/

namespace Scudo.Release
open Scudo.Lib
open Scudo.Secondary (WordSize)

/-- The calls that write counters. -/
inductive Call where
  | inc (region i : Nat)
  | incN (region i n : Nat)
  | incRange (region first last : Nat)
  | setAsAllCounted (region i : Nat)
  | setAsAllCountedRange (region first last : Nat)
  | updateAsAllCountedIf (region i maxCount : Nat)

namespace Call

/-- Whether a call is for this counter. -/
def addresses (numCounters : Nat) (c : Call) (r j : Nat) : Bool :=
  match c with
  | inc region i | incN region i _ | setAsAllCounted region i
  | updateAsAllCountedIf region i _ => r == region && j == i
  | incRange region first last | setAsAllCountedRange region first last =>
      r == region && (decide (first ≤ j) && decide (j ≤ last) && decide (j < numCounters))

/-- The region is one of the map, and so is the counter of a call that names one. -/
def Valid (regions numCounters : Nat) : Call → Prop
  | inc region i | incN region i _ | setAsAllCounted region i
  | updateAsAllCountedIf region i _ => region < regions ∧ i < numCounters
  | incRange region _ _ | setAsAllCountedRange region _ _ => region < regions

/-- The end of a range, one after its last counter, does not overflow. -/
def Clips (word : WordSize) (numCounters : Nat) : Call → Prop
  | incRange _ first last | setAsAllCountedRange _ first last =>
      last + 1 < 2 ^ word.bits ∨ numCounters ≤ first
  | _ => True

instance (regions numCounters : Nat) (c : Call) : Decidable (c.Valid regions numCounters) := by
  unfold Valid
  split <;> infer_instance

instance (word : WordSize) (numCounters : Nat) (c : Call) :
    Decidable (c.Clips word numCounters) := by
  unfold Clips
  split <;> infer_instance

end Call

/-- A number for every page of every region. -/
abbrev Counts := Nat → Nat → Nat

namespace Counts

def change (counts : Counts) (f : Nat → Nat) (addressed : Nat → Nat → Bool) : Counts :=
  fun r j => if addressed r j then f (counts r j) else counts r j

/-- What a call means, and what it returns. -/
def call (numCounters mask : Nat) (counts : Counts) (c : Call) : Option Bool × Counts :=
  let addressed := c.addresses numCounters
  match c with
  | .inc _ _ | .incRange _ _ _ => (none, counts.change (· + 1) addressed)
  | .incN _ _ n => (none, counts.change (· + n) addressed)
  | .setAsAllCounted _ _ | .setAsAllCountedRange _ _ _ => (none, counts.change (fun _ => mask) addressed)
  | .updateAsAllCountedIf region i maxCount =>
      if counts region i = mask then (some true, counts)
      else if counts region i = maxCount then (some true, counts.change (fun _ => mask) addressed)
      else (some false, counts)

def run (numCounters mask : Nat) (counts : Counts) : List Call → List (Option Bool) × Counts
  | [] => ([], counts)
  | c :: rest =>
      let (answer, next) := call numCounters mask counts c
      let (answers, last) := run numCounters mask next rest
      (answer :: answers, last)

/-- No number of the map ever exceeds the mask. -/
def Keeps (regions numCounters mask : Nat) (counts : Counts) : List Call → Prop
  | [] => True
  | c :: rest =>
      let next := (call numCounters mask counts c).2
      (∀ r < regions, ∀ j < numCounters, next r j ≤ mask) ∧
        Keeps regions numCounters mask next rest

instance decidableKeeps (regions numCounters mask : Nat) (counts : Counts) :
    (calls : List Call) → Decidable (Keeps regions numCounters mask counts calls)
  | [] => .isTrue trivial
  | c :: rest =>
      have := decidableKeeps regions numCounters mask (call numCounters mask counts c).2 rest
      inferInstanceAs (Decidable (_ ∧ _))

/-- A call changes the numbers it is for and no other one. -/
theorem call_other {numCounters mask : Nat} {counts : Counts} {c : Call} {r j : Nat}
    (other : c.addresses numCounters r j = false) :
    (call numCounters mask counts c).2 r j = counts r j := by
  have unchanged (f : Nat → Nat) :
      counts.change f (c.addresses numCounters) r j = counts r j := by
    unfold change
    rw [other, if_neg Bool.false_ne_true]
  cases c with
  | inc region i => exact unchanged (· + 1)
  | incN region i n => exact unchanged (· + n)
  | incRange region first last => exact unchanged (· + 1)
  | setAsAllCounted region i => exact unchanged fun _ => mask
  | setAsAllCountedRange region first last => exact unchanged fun _ => mask
  | updateAsAllCountedIf region i maxCount =>
      unfold call
      dsimp only
      split_ifs
      · rfl
      · exact unchanged fun _ => mask
      · rfl

variable {regions numCounters mask : Nat} {counts : Counts} {before after : List Call} {c : Call}

theorem run_append :
    (run numCounters mask counts (before ++ after)).2 =
      (run numCounters mask (run numCounters mask counts before).2 after).2 := by
  induction before generalizing counts with
  | nil => rfl
  | cons d rest ih => exact ih

theorem Keeps.of_append (keeps : Keeps regions numCounters mask counts (before ++ after)) :
    Keeps regions numCounters mask counts before := by
  induction before generalizing counts with
  | nil => trivial
  | cons d rest ih => exact ⟨keeps.1, ih keeps.2⟩

end Counts

namespace RegionPageMap

def call (m : RegionPageMap) : Call → Option Bool × RegionPageMap
  | .inc region i => (none, m.inc region i)
  | .incN region i n => (none, m.incN region i n)
  | .incRange region first last => (none, m.incRange region first last)
  | .setAsAllCounted region i => (none, m.setAsAllCounted region i)
  | .setAsAllCountedRange region first last => (none, m.setAsAllCountedRange region first last)
  | .updateAsAllCountedIf region i maxCount =>
      let (full, next) := m.updateAsAllCountedIf region i maxCount
      (some full, next)

def run (m : RegionPageMap) : List Call → List (Option Bool) × RegionPageMap
  | [] => ([], m)
  | c :: rest =>
      let (answer, next) := m.call c
      let (answers, last) := next.run rest
      (answer :: answers, last)

/-- The indices of the words that a call uses. -/
def indices (m : RegionPageMap) : Call → List Nat
  | .inc region i | .incN region i _ | .setAsAllCounted region i
  | .updateAsAllCountedIf region i _ => [m.index region i]
  | .incRange region first last | .setAsAllCountedRange region first last =>
      (m.range first last).map (m.index region)

/-- Only words of the buffer are written. -/
structure Writes (m next : RegionPageMap) (used : List Nat) : Prop where
  shape : next = { m with data := next.data }
  frame : ∀ k, k ∉ used → next.data k = m.data k

variable {m next last : RegionPageMap} {used more : List Nat} {log region i n first stop : Nat}

theorem Writes.refl (m : RegionPageMap) (used : List Nat) : m.Writes m used := ⟨rfl, fun _ _ => rfl⟩

theorem Writes.trans (writes : m.Writes next used) (then_ : next.Writes last more) :
    m.Writes last (used ++ more) := by
  constructor
  · rw [then_.shape, writes.shape]
  · intro k outside
    rw [List.mem_append, not_or] at outside
    rw [then_.frame k outside.2, writes.frame k outside.1]

theorem writes_store (m : RegionPageMap) (region i value : Nat) :
    m.Writes (m.store region i value) [m.index region i] := by
  refine ⟨rfl, ?_⟩
  intro k outside
  exact store_data (fun same => outside (List.mem_singleton.mpr same))

/-- The counters of the map are the numbers of the array. -/
structure Agrees (m : RegionPageMap) (log : Nat) (counts : Counts) : Prop where
  sane : m.Sane log
  get : ∀ r j, m.Has r j → m.get r j = counts r j

section Single

variable {counts : Counts}

/-- The counter of a call that names one. -/
def single (region i : Nat) : Nat → Nat → Bool := fun r j => r == region && j == i

theorem single_iff {r j : Nat} : single region i r j = true ↔ r = region ∧ j = i := by
  unfold single
  rw [Bool.and_eq_true, beq_iff_eq, beq_iff_eq]

/-- The map agrees again once one counter and its number have changed alike. -/
theorem Agrees.changed {next : RegionPageMap} (f : Nat → Nat) (agrees : m.Agrees log counts)
    (here : m.Has region i) (sane : next.Sane log) (shape : ∀ r j, next.Has r j → m.Has r j)
    (get : ∀ r j, m.Has r j →
      next.get r j = if r = region ∧ j = i then f (m.get region i) else m.get r j) :
    next.Agrees log (counts.change f (single region i)) := by
  refine ⟨sane, ?_⟩
  intro r j has
  rw [get r j (shape r j has)]
  unfold Counts.change
  simp only [single_iff]
  split_ifs with same
  · rw [same.1, same.2, agrees.get region i here]
  · exact agrees.get r j (shape r j has)

theorem Agrees.incN (agrees : m.Agrees log counts) (here : m.Has region i)
    (room : counts region i + n ≤ m.counterMask) :
    (m.incN region i n).Agrees log (counts.change (· + n) (single region i)) := by
  rw [← agrees.get region i here] at room
  obtain ⟨sane, get⟩ := agrees.sane.get_incN here room
  exact agrees.changed (· + n) here sane (fun _ _ has => has) get

theorem Agrees.setAsAllCounted (agrees : m.Agrees log counts) (here : m.Has region i) :
    (m.setAsAllCounted region i).Agrees log
      (counts.change (fun _ => m.counterMask) (single region i)) := by
  obtain ⟨sane, get⟩ := agrees.sane.get_setAsAllCounted here
  exact agrees.changed (fun _ => m.counterMask) here sane (fun _ _ has => has) get

/-- A counter reads as all counted when its number is the mask. -/
theorem Agrees.isAllCounted_iff (agrees : m.Agrees log counts) (here : m.Has region i) :
    m.isAllCounted region i = true ↔ counts region i = m.counterMask := by
  unfold RegionPageMap.isAllCounted
  rw [beq_iff_eq, agrees.get region i here]

end Single

section Loops

variable {counts : Counts} {g : Nat → Nat} {op : RegionPageMap → Nat → RegionPageMap}
  {order : List Nat} {mask : Nat}

/-- The counters of a loop. -/
def listed (region : Nat) (order : List Nat) : Nat → Nat → Bool :=
  fun r j => r == region && decide (j ∈ order)

/-- Changing one counter and then others is changing all of them. -/
theorem change_listed (fresh : i ∉ order) :
    (counts.change g (single region i)).change g (listed region order) =
      counts.change g (listed region (i :: order)) := by
  funext r j
  unfold Counts.change single listed
  by_cases sameRegion : r = region
  · by_cases same : j = i
    · subst sameRegion same
      simp [fresh]
    · simp [sameRegion, same]
  · simp [sameRegion]

/-- A loop over different counters of a region does to each of them what one pass does. -/
theorem Agrees.foldl
    (pass : ∀ (m : RegionPageMap) (counts : Counts) (i : Nat), m.counterMask = mask →
      m.Agrees log counts → m.Has region i → g (counts region i) ≤ mask →
      (op m i).Agrees log (counts.change g (single region i)) ∧
        m.Writes (op m i) [m.index region i])
    (same : m.counterMask = mask) (agrees : m.Agrees log counts) (nodup : order.Nodup)
    (valid : ∀ i ∈ order, m.Has region i) (room : ∀ i ∈ order, g (counts region i) ≤ mask) :
    (order.foldl op m).Agrees log (counts.change g (listed region order)) ∧
      m.Writes (order.foldl op m) (order.map (m.index region)) := by
  induction order generalizing m counts with
  | nil =>
    refine ⟨?_, Writes.refl m _⟩
    have none : counts.change g (listed region []) = counts := by
      funext r j
      unfold Counts.change listed
      simp
    rw [none]
    exact agrees
  | cons i rest ih =>
    obtain ⟨fresh, nodup⟩ := List.nodup_cons.mp nodup
    obtain ⟨agrees', writes⟩ :=
      pass m counts i same agrees (valid i List.mem_cons_self) (room i List.mem_cons_self)
    have has (r j : Nat) : (op m i).Has r j ↔ m.Has r j := by
      rw [writes.shape]
      rfl
    have same' : (op m i).counterMask = mask := by
      rw [writes.shape]
      exact same
    have index : (op m i).index region = m.index region := by
      rw [writes.shape]
      rfl
    have room' : ∀ j ∈ rest, g (counts.change g (single region i) region j) ≤ mask := by
      intro j member
      have different : single region i region j = false := by
        rw [← Bool.not_eq_true, single_iff]
        exact fun same => fresh (same.2 ▸ member)
      unfold Counts.change
      rw [different, if_neg Bool.false_ne_true]
      exact room j (List.mem_cons_of_mem _ member)
    obtain ⟨last, written⟩ := ih same' agrees' nodup
      (fun j member => (has region j).mpr (valid j (List.mem_cons_of_mem _ member))) room'
    rw [change_listed fresh] at last
    rw [index] at written
    exact ⟨last, writes.trans written⟩

end Loops

section Ranges

variable {counts : Counts} {r j : Nat}

/-- A range whose end does not overflow is cut off after the last counter. -/
theorem mem_range (clips : stop + 1 < 2 ^ m.word.bits ∨ m.numCounters ≤ first) :
    j ∈ m.range first stop ↔ first ≤ j ∧ j ≤ stop ∧ j < m.numCounters := by
  unfold range
  dsimp only
  rw [List.mem_range'_1]
  rcases clips with small | beyond
  · rw [wadd_eq small]
    omega
  · omega

theorem mem_range_lt (member : j ∈ m.range first stop) : j < m.numCounters := by
  unfold range at member
  dsimp only at member
  rw [List.mem_range'_1] at member
  omega

theorem range_nodup : (m.range first stop).Nodup := List.nodup_range'

/-- When the end of a range overflows, no counter is in it. -/
theorem range_overflow : m.range first (2 ^ m.word.bits - 1) = [] := by
  have positive := Nat.two_pow_pos m.word.bits
  have zero : wadd m.word.bits (2 ^ m.word.bits - 1) 1 = 0 := by
    unfold wadd wrap
    rw [Nat.sub_add_cancel positive, Nat.mod_self]
  unfold range
  dsimp only
  rw [zero, Nat.zero_min, Nat.zero_sub, List.range'_zero]

/-- So the loops do nothing, although the range reaches past the last counter. -/
theorem incRange_overflow : m.incRange region first (2 ^ m.word.bits - 1) = m := by
  unfold incRange
  rw [range_overflow, List.foldl_nil]

theorem setAsAllCountedRange_overflow :
    m.setAsAllCountedRange region first (2 ^ m.word.bits - 1) = m := by
  unfold RegionPageMap.setAsAllCountedRange
  rw [range_overflow, List.foldl_nil]

theorem listed_range (clips : stop + 1 < 2 ^ m.word.bits ∨ m.numCounters ≤ first) :
    listed region (m.range first stop) =
      (Call.incRange region first stop).addresses m.numCounters := by
  funext r j
  unfold listed Call.addresses
  congr 1
  rw [← Bool.decide_and, ← Bool.decide_and, decide_eq_decide, mem_range clips, and_assoc]

/-- A range of counters of which none is at the mask. -/
theorem Agrees.incRange (agrees : m.Agrees log counts) (valid : region < m.regions)
    (clips : stop + 1 < 2 ^ m.word.bits ∨ m.numCounters ≤ first)
    (room : ∀ j ∈ m.range first stop, counts region j + 1 ≤ m.counterMask) :
    (m.incRange region first stop).Agrees log
        (counts.change (· + 1) ((Call.incRange region first stop).addresses m.numCounters)) ∧
      m.Writes (m.incRange region first stop) ((m.range first stop).map (m.index region)) := by
  rw [← listed_range clips]
  refine Agrees.foldl (g := (· + 1)) ?_ rfl agrees range_nodup ?_ room
  · intro m counts i same agrees here below
    exact ⟨agrees.incN here (below.trans_eq same.symm), writes_store m region i _⟩
  · intro j member
    exact ⟨valid, mem_range_lt member⟩

theorem Agrees.setAsAllCountedRange (agrees : m.Agrees log counts) (valid : region < m.regions)
    (clips : stop + 1 < 2 ^ m.word.bits ∨ m.numCounters ≤ first) :
    (m.setAsAllCountedRange region first stop).Agrees log (counts.change (fun _ => m.counterMask)
        ((Call.incRange region first stop).addresses m.numCounters)) ∧
      m.Writes (m.setAsAllCountedRange region first stop)
        ((m.range first stop).map (m.index region)) := by
  rw [← listed_range clips]
  refine Agrees.foldl (g := fun _ => m.counterMask) ?_ rfl agrees range_nodup ?_ ?_
  · intro next counts i same agrees here _
    rw [← same]
    exact ⟨agrees.setAsAllCounted here, writes_store next region i _⟩
  · intro j member
    exact ⟨valid, mem_range_lt member⟩
  · intro j member
    exact le_rfl

end Ranges

section Calls

variable {counts : Counts} {c : Call} {calls : List Call}

/-- What a call leaves behind, and what it returns. -/
structure Refines (m : RegionPageMap) (log : Nat) (counts : Counts) (c : Call) : Prop where
  answer : (m.call c).1 = (counts.call m.numCounters m.counterMask c).1
  agrees : (m.call c).2.Agrees log (counts.call m.numCounters m.counterMask c).2
  writes : m.Writes (m.call c).2 (m.indices c)

/-- A page that has `maxCount` is marked, one that is marked stays so. -/
theorem Agrees.updateAsAllCountedIf (agrees : m.Agrees log counts) (here : m.Has region i) :
    m.Refines log counts (.updateAsAllCountedIf region i n) := by
  have outcome : m.call (.updateAsAllCountedIf region i n) =
      if counts region i = m.counterMask then (some true, m)
      else if counts region i = n then (some true, m.setAsAllCounted region i)
      else (some false, m) := by
    unfold call RegionPageMap.updateAsAllCountedIf
    dsimp only
    rw [agrees.get region i here]
    split_ifs
    · rfl
    · rfl
    · rfl
  have meaning : counts.call m.numCounters m.counterMask (.updateAsAllCountedIf region i n) =
      if counts region i = m.counterMask then (some true, counts)
      else if counts region i = n then
        (some true, counts.change (fun _ => m.counterMask) (single region i))
      else (some false, counts) := rfl
  constructor
  · rw [outcome, meaning]
    split_ifs
    · rfl
    · rfl
    · rfl
  · rw [outcome, meaning]
    split_ifs
    · exact agrees
    · exact agrees.setAsAllCounted here
    · exact agrees
  · rw [outcome]
    split_ifs
    · exact Writes.refl m _
    · exact writes_store m region i _
    · exact Writes.refl m _

/-- One call does to the counters what it does to the array. -/
theorem Agrees.call (agrees : m.Agrees log counts) (valid : c.Valid m.regions m.numCounters)
    (clips : c.Clips m.word m.numCounters)
    (keeps : ∀ r < m.regions, ∀ j < m.numCounters,
      (counts.call m.numCounters m.counterMask c).2 r j ≤ m.counterMask) :
    m.Refines log counts c := by
  cases c with
  | inc region i =>
    have room := keeps region valid.1 i valid.2
    change counts.change (· + 1) (single region i) region i ≤ m.counterMask at room
    unfold Counts.change at room
    rw [if_pos (single_iff.mpr ⟨rfl, rfl⟩)] at room
    exact ⟨rfl, agrees.incN valid room, writes_store m region i _⟩
  | incN region i n =>
    have room := keeps region valid.1 i valid.2
    change counts.change (· + n) (single region i) region i ≤ m.counterMask at room
    unfold Counts.change at room
    rw [if_pos (single_iff.mpr ⟨rfl, rfl⟩)] at room
    exact ⟨rfl, agrees.incN valid room, writes_store m region i _⟩
  | incRange region first stop =>
    have room : ∀ j ∈ m.range first stop, counts region j + 1 ≤ m.counterMask := by
      intro j member
      have after := keeps region valid j (mem_range_lt member)
      change counts.change (· + 1)
        ((Call.incRange region first stop).addresses m.numCounters) region j ≤ _ at after
      unfold Counts.change at after
      rw [← listed_range clips, if_pos (by simpa [listed] using member)] at after
      exact after
    obtain ⟨agrees', writes⟩ := agrees.incRange valid clips room
    exact ⟨rfl, agrees', writes⟩
  | setAsAllCounted region i =>
    exact ⟨rfl, agrees.setAsAllCounted valid, writes_store m region i _⟩
  | setAsAllCountedRange region first stop =>
    obtain ⟨agrees', writes⟩ := agrees.setAsAllCountedRange valid clips
    exact ⟨rfl, agrees', writes⟩
  | updateAsAllCountedIf region i maxCount => exact agrees.updateAsAllCountedIf valid

/-- Every word that a call uses is in the buffer. -/
theorem Roomy.indices_lt (roomy : m.Roomy log) (valid : c.Valid m.regions m.numCounters) :
    ∀ k ∈ m.indices c, k < m.bufferNumElements := by
  have range (region first stop : Nat) (inside : region < m.regions) :
      ∀ k ∈ (m.range first stop).map (m.index region), k < m.bufferNumElements := by
    intro k member
    obtain ⟨j, inRange, rfl⟩ := List.mem_map.mp member
    exact roomy.index_lt ⟨inside, mem_range_lt inRange⟩
  have alone (region i : Nat) (here : m.Has region i) :
      ∀ k ∈ [m.index region i], k < m.bufferNumElements := by
    intro k member
    rw [List.mem_singleton.mp member]
    exact roomy.index_lt here
  cases c with
  | inc region i => exact alone region i valid
  | incN region i n => exact alone region i valid
  | incRange region first stop => exact range region first stop valid
  | setAsAllCounted region i => exact alone region i valid
  | setAsAllCountedRange region first stop => exact range region first stop valid
  | updateAsAllCountedIf region i maxCount => exact alone region i valid

/-- The map after a run, what the run returned, and the words that it used. -/
theorem Agrees.run (agrees : m.Agrees log counts)
    (valid : ∀ c ∈ calls, c.Valid m.regions m.numCounters)
    (clips : ∀ c ∈ calls, c.Clips m.word m.numCounters)
    (keeps : counts.Keeps m.regions m.numCounters m.counterMask calls) :
    (m.run calls).1 = (counts.run m.numCounters m.counterMask calls).1 ∧
      (m.run calls).2.Agrees log (counts.run m.numCounters m.counterMask calls).2 ∧
      m.Writes (m.run calls).2 (calls.flatMap m.indices) := by
  induction calls generalizing m counts with
  | nil => exact ⟨rfl, agrees, Writes.refl m _⟩
  | cons c rest ih =>
    obtain ⟨now, later⟩ := keeps
    have step := agrees.call (valid c List.mem_cons_self) (clips c List.mem_cons_self) now
    have word : (m.call c).2.word = m.word := by rw [step.writes.shape]
    have regions : (m.call c).2.regions = m.regions := by rw [step.writes.shape]
    have numCounters : (m.call c).2.numCounters = m.numCounters := by rw [step.writes.shape]
    have counterMask : (m.call c).2.counterMask = m.counterMask := by rw [step.writes.shape]
    have indices : (m.call c).2.indices = m.indices := by
      rw [step.writes.shape]
      rfl
    have next := @ih (m.call c).2 _ step.agrees
    rw [word, regions, numCounters, counterMask, indices] at next
    obtain ⟨answers, last, writes⟩ := next
      (fun d member => valid d (List.mem_cons_of_mem _ member))
      (fun d member => clips d (List.mem_cons_of_mem _ member)) later
    refine ⟨?_, last, step.writes.trans writes⟩
    change (m.call c).1 :: ((m.call c).2.run rest).1 = _
    rw [step.answer, answers]
    rfl

end Calls

section Reset

variable {word : WordSize} {regions counters maxValue : Nat} {buffer : Nat → Nat}

/-- In a buffer of zeros every counter is 0. -/
theorem reset_agrees (positive : 0 < maxValue) (bound : maxValue < 2 ^ word.bits)
    (zeroed : ∀ k < (reset word regions counters maxValue buffer).bufferNumElements, buffer k = 0)
    (fits : Fits word regions counters maxValue) :
    ∃ log, (reset word regions counters maxValue buffer).Agrees log fun _ _ => 0 := by
  obtain ⟨log, shaped, -⟩ := @reset_shaped word regions counters maxValue buffer positive bound
  have measured := reset_measured shaped
  unfold Fits at fits
  rw [@reset_packingRatio word regions counters maxValue buffer positive bound] at fits
  have roomy := measured.roomy fits.1 fits.2
  refine ⟨log, { roomy with words := ?_ }, ?_⟩
  · intro k inBuffer
    change buffer k < _
    rw [zeroed k inBuffer]
    exact Nat.two_pow_pos _
  · intro r j here
    have zero := zeroed _ (roomy.index_lt here)
    unfold get
    change (buffer _ >>> _) &&& _ = 0
    rw [zero, Nat.zero_shiftRight, Nat.zero_and]

/-- The buffer has room for all counters exactly when no size overflows. Then, in every run that
keeps the numbers of the array at or below the mask, with ranges whose end does not overflow, the
counters are the array, only counters that are addressed change, and no word outside of the buffer
is used. -/
theorem counters_match_array (someRegions : 0 < regions) (someCounters : 0 < counters)
    (countersWord : counters < 2 ^ word.bits) (positive : 0 < maxValue)
    (bound : maxValue < 2 ^ word.bits)
    (zeroed : ∀ k < (reset word regions counters maxValue buffer).bufferNumElements,
      buffer k = 0) :
    let m := reset word regions counters maxValue buffer
    maxValue ≤ m.counterMask ∧
      ((∀ r j, m.Has r j → m.index r j < m.bufferNumElements) ↔
        Fits word regions counters maxValue) ∧
      (Fits word regions counters maxValue → ∀ calls : List Call,
        (∀ c ∈ calls, c.Valid regions counters) → (∀ c ∈ calls, c.Clips word counters) →
        Counts.Keeps regions counters m.counterMask (fun _ _ => 0) calls →
          (m.run calls).1 = (Counts.run counters m.counterMask (fun _ _ => 0) calls).1 ∧
          (∀ r j, m.Has r j → (m.run calls).2.get r j =
            (Counts.run counters m.counterMask (fun _ _ => 0) calls).2 r j) ∧
          (∀ before c after, calls = before ++ c :: after → ∀ r j, m.Has r j →
            c.addresses counters r j = false →
              (m.run (before ++ [c])).2.get r j = (m.run before).2.get r j) ∧
          (∀ c ∈ calls, ∀ k ∈ m.indices c, k < m.bufferNumElements) ∧
          ∀ k, m.bufferNumElements ≤ k → (m.run calls).2.data k = buffer k) := by
  intro m
  refine ⟨reset_counterMask positive bound, ?_, ?_⟩
  · obtain ⟨log, shaped, -⟩ := @reset_shaped word regions counters maxValue buffer positive bound
    have room := (reset_measured shaped).room_iff someRegions someCounters countersWord
    unfold Fits
    rw [@reset_packingRatio word regions counters maxValue buffer positive bound]
    exact room
  · intro fits calls valid clips keeps
    obtain ⟨log, agrees⟩ := reset_agrees positive bound zeroed fits
    obtain ⟨answers, last, writes⟩ := agrees.run valid clips keeps
    have get (done : List Call) (keeps : Counts.Keeps regions counters m.counterMask
        (fun _ _ => 0) done) (part : ∀ c ∈ done, c ∈ calls) (r j : Nat) (here : m.Has r j) :
        (m.run done).2.get r j =
          (Counts.run counters m.counterMask (fun _ _ => 0) done).2 r j := by
      obtain ⟨-, reached, written⟩ := agrees.run (fun c member => valid c (part c member))
        (fun c member => clips c (part c member)) keeps
      refine reached.get r j ?_
      rw [written.shape]
      exact here
    have inBuffer : ∀ c ∈ calls, ∀ k ∈ m.indices c, k < m.bufferNumElements := by
      intro c member
      exact agrees.sane.indices_lt (valid c member)
    refine ⟨answers, get calls keeps fun c member => member, ?_, inBuffer, ?_⟩
    · intro before c after split r j here other
      rw [split, List.append_cons] at keeps
      have upTo := keeps.of_append
      have part : ∀ d ∈ before ++ [c], d ∈ calls := by
        intro d member
        rw [split, List.append_cons]
        exact List.mem_append_left _ member
      rw [get _ upTo part r j here, get _ upTo.of_append
        (fun d member => part d (List.mem_append_left _ member)) r j here, Counts.run_append]
      exact Counts.call_other other
    · intro k outside
      refine writes.frame k ?_
      intro used
      obtain ⟨c, member, inCall⟩ := List.mem_flatMap.mp used
      exact absurd (inBuffer c member k inCall) (Nat.not_lt.mpr outside)

/-- Two regions of 20 counters, of which one is incremented next to another, ranges end behind the
last counter, and pages are marked. -/
theorem counters_match_array_marked :
    let m := reset .w64 2 20 5 fun _ => 0
    let calls := [Call.inc 0 3, .incN 1 19 4, .incRange 0 2 25, .setAsAllCounted 0 4,
      .setAsAllCountedRange 1 17 18, .updateAsAllCountedIf 0 3 2, .updateAsAllCountedIf 0 5 2]
    (m.run calls).1 = [none, none, none, none, none, some true, some false] ∧
      (m.run calls).2.get 0 3 = 15 ∧ (m.run calls).2.get 1 19 = 4 := by
  intro m calls
  obtain ⟨-, -, run⟩ := @counters_match_array .w64 2 20 5 (fun _ => 0) (by decide) (by decide)
    (by decide) (by decide) (by decide) (fun _ _ => rfl)
  obtain ⟨answers, get, -⟩ := run (by decide) calls (by decide) (by decide) (by decide)
  refine ⟨answers, (get 0 3 (by decide)).trans ?_, (get 1 19 (by decide)).trans ?_⟩
  · decide
  · decide

/-- The end of the widest range overflows to 0, so no counter is incremented. The size for
`2 ^ 63` regions of two words overflows to 0, so no counter is in the buffer. -/
theorem widest_range_lost :
    (let m := reset .w64 1 4 1 fun _ => 0
     let calls := [Call.incRange 0 0 (2 ^ 64 - 1)]
     Fits .w64 1 4 1 ∧ (∀ c ∈ calls, c.Valid 1 4) ∧
       Counts.Keeps 1 4 m.counterMask (fun _ _ => 0) calls ∧ (m.run calls).2.get 0 0 = 0 ∧
       (Counts.run 4 m.counterMask (fun _ _ => 0) calls).2 0 0 = 1) ∧
      (let m := reset .w64 (2 ^ 63) 2 (2 ^ 63) fun _ => 0
       m.Has 1 0 ∧ m.bufferNumElements = 0 ∧ m.index 1 0 = 2) := by
  decide

end Reset

end RegionPageMap

end Scudo.Release
