import Mathlib.Data.List.Flatten
import Mathlib.Data.List.Induction
import Scudo.ErrorInfo.StackDepot
import Scudo.Lib.RingLog

/-!
The `StackDepot` of a running process: traces are stored one behind the other in a ring, and a table
has the place where the last one with the low bits of a hash begins.
-/

namespace Scudo.StackDepot
open Scudo.Lib ErrorInfo.MurMur2HashBuilder

/-- The arguments of `init`. -/
structure Sizes where
  ringLog : Nat
  tabLog : Nat
  ring_le : ringLog ≤ 31
  tab_le : tabLog ≤ 31

namespace Sizes

def ringSize (z : Sizes) : Nat := 2 ^ z.ringLog

def ringMask (z : Sizes) : Nat := z.ringSize - 1

def tabMask (z : Sizes) : Nat := 2 ^ z.tabLog - 1

end Sizes

variable (z : Sizes)

structure Depot where
  ringEnd : Nat
  ring : Nat → Nat
  tab : Nat → Nat

/-- A trace is shorter than the ring, and its frames have bit 0 clear. -/
structure Trace where
  frames : List Nat
  short : frames.length < z.ringSize
  even : ∀ frame ∈ frames, frame % 2 = 0

def Depot.start : Depot := ⟨0, fun _ => 0, fun _ => 0⟩

/-- One frame of the hash. -/
def addFrame (h frame : Nat) : Nat := add h (wrap 32 frame >>> 2)

def hashOf (frames : List Nat) : Nat := get (frames.foldl addFrame init)

def marker (size hash : Nat) : Nat := wrap 64 (size <<< 33) ||| wrap 64 (hash <<< 1) ||| 1

namespace Depot

/-- The loop of `insert` that stores the frames, with `RingPos`. -/
def storeFrames (frames : List Nat) (start : (Nat → Nat) × Nat) : (Nat → Nat) × Nat :=
  frames.foldl (fun state frame =>
    let ringPos := wadd 32 state.2 1 &&& z.ringMask
    (Function.update state.1 ringPos frame, ringPos)) start

def insert (d : Depot) (frames : List Nat) : Nat × Depot :=
  let hash := hashOf frames
  let pos := hash &&& z.tabMask
  let ringPos := d.tab pos
  let entry := d.ring ringPos
  let id := marker frames.length hash
  if entry = id then (hash, d)
  else
    let ringPos := d.ringEnd
    let tab := Function.update d.tab pos ringPos
    let stored := storeFrames z frames (Function.update d.ring ringPos id, ringPos)
    (hash, ⟨wadd 32 stored.2 1 &&& z.ringMask, stored.1, tab⟩)

/-- The loop of `find` over the frames. -/
def hashFrames (d : Depot) (size : Nat) (start : Nat × Nat) : Nat × Nat :=
  (List.range size).foldl (fun state _ =>
    let ringPos := wadd 32 state.1 1 &&& z.ringMask
    (ringPos, addFrame state.2 (d.ring ringPos))) start

/-- The place and the size of the trace with this hash. -/
def find (d : Depot) (hash : Nat) : Option (Nat × Nat) :=
  let pos := hash &&& z.tabMask
  let ringPos := d.tab pos
  if z.ringSize ≤ ringPos then none
  else
    let entry := d.ring ringPos
    let hashWithTagBit := wrap 64 (hash <<< 1) ||| 1
    if entry &&& 0x1ffffffff ≠ hashWithTagBit then none
    else
      let size := wrap 32 (entry >>> 33)
      if z.ringSize ≤ size then none
      else if get (d.hashFrames z size (ringPos, init)).2 = hash then
        some (wadd 32 ringPos 1 &&& z.ringMask, size)
      else none

/-- `at` -/
def frameAt (d : Depot) (ringPos : Nat) : Nat := d.ring (ringPos &&& z.ringMask)

/-- The frames that a caller of `find` reads. -/
def framesAt (d : Depot) (ringPos size : Nat) : List Nat :=
  (List.range size).map fun i => d.frameAt z (wadd 64 ringPos i)

end Depot

section Words

theorem hashOf_lt (frames : List Nat) : hashOf frames < 2 ^ 32 := by
  unfold hashOf ErrorInfo.MurMur2HashBuilder.get
  dsimp only
  exact Nat.xor_lt_two_pow (wrap_lt 32 _) (lt_of_le_of_lt (Nat.shiftRight_le _ _) (wrap_lt 32 _))

variable {size hash : Nat}

theorem tag_eq (bound : hash < 2 ^ 32) : wrap 64 (hash <<< 1) ||| 1 = 2 * hash + 1 := by
  rw [Nat.shiftLeft_eq, wrap_eq (by omega), Nat.mul_comm]
  exact (Nat.two_pow_add_eq_or_of_lt (i := 1) (by decide) _).symm

/-- The fields of a marker do not overlap. -/
theorem marker_eq (small : size < 2 ^ 31) (bound : hash < 2 ^ 32) :
    marker size hash = 2 ^ 33 * size + (2 * hash + 1) := by
  have sizes : wrap 64 (size <<< 33) = 2 ^ 33 * size := by
    rw [Nat.shiftLeft_eq, wrap_eq (by omega), Nat.mul_comm]
  have joined : 2 ^ 33 * size ||| (2 * hash + 1) = 2 ^ 33 * size + (2 * hash + 1) :=
    (Nat.two_pow_add_eq_or_of_lt (by omega) _).symm
  unfold marker
  rw [sizes, Nat.or_assoc, tag_eq bound, joined]

theorem marker_odd (small : size < 2 ^ 31) (bound : hash < 2 ^ 32) : marker size hash % 2 = 1 := by
  rw [marker_eq small bound]
  omega

theorem marker_tag (small : size < 2 ^ 31) (bound : hash < 2 ^ 32) :
    marker size hash &&& 0x1ffffffff = wrap 64 (hash <<< 1) ||| 1 := by
  have mask : 0x1ffffffff = 2 ^ 33 - 1 := rfl
  rw [mask, Nat.and_two_pow_sub_one_eq_mod, marker_eq small bound, tag_eq bound]
  omega

theorem marker_size (small : size < 2 ^ 31) (bound : hash < 2 ^ 32) :
    wrap 32 (marker size hash >>> 33) = size := by
  rw [Nat.shiftRight_eq_div_pow, marker_eq small bound, wrap_eq]
  · omega
  · omega

theorem marker_injective {size' hash' : Nat} (small : size < 2 ^ 31) (bound : hash < 2 ^ 32)
    (small' : size' < 2 ^ 31) (bound' : hash' < 2 ^ 32) (same : marker size hash = marker size' hash') :
    size = size' ∧ hash = hash' := by
  rw [marker_eq small bound, marker_eq small' bound'] at same
  omega

end Words

namespace Sizes

variable {z}

theorem ringSize_pos : 0 < z.ringSize := Nat.two_pow_pos _

theorem ringSize_le : z.ringSize ≤ 2 ^ 31 := Nat.pow_le_pow_right (by decide) z.ring_le

theorem next {ringPos : Nat} : wadd 32 ringPos 1 &&& z.ringMask = (ringPos + 1) % z.ringSize := by
  have le := z.ring_le
  exact wrap_and_mask (by omega)

theorem behind {ringPos i : Nat} : wadd 64 ringPos i &&& z.ringMask = (ringPos + i) % z.ringSize := by
  have le := z.ring_le
  exact wrap_and_mask (by omega)

end Sizes

namespace Trace

variable {z} (t : Trace z)

def hash : Nat := hashOf t.frames

def id : Nat := marker t.frames.length t.hash

/-- What `insert` writes. -/
def words : List Nat := t.id :: t.frames

theorem small : t.frames.length < 2 ^ 31 := lt_of_lt_of_le t.short Sizes.ringSize_le

theorem id_odd : t.id % 2 = 1 := marker_odd t.small (hashOf_lt _)

/-- The log of all that was written. -/
def log (stored : List (Trace z)) : List Nat := stored.flatMap words

theorem log_append (stored : List (Trace z)) : log (stored ++ [t]) = log stored ++ t.words := by
  unfold log
  rw [List.flatMap_append, List.flatMap_singleton]

/-- Only markers are odd, so an odd word begins a trace. -/
theorem log_odd (stored : List (Trace z)) {i : Nat} (inside : i < (log stored).length)
    (odd : (log stored)[i] % 2 = 1) :
    ∃ before t after, stored = before ++ t :: after ∧ i = (log before).length := by
  induction stored generalizing i with
  | nil => exact absurd inside (Nat.not_lt_zero _)
  | cons first rest ih =>
    have parts : log (first :: rest) = first.words ++ log rest := List.flatMap_cons
    by_cases own : i < first.words.length
    · cases i with
      | zero => exact ⟨[], first, rest, rfl, rfl⟩
      | succ i =>
        have short : i < first.frames.length := Nat.lt_of_succ_lt_succ own
        have value : (log (first :: rest))[i + 1] = first.frames[i] := by
          simp only [parts]
          rw [List.getElem_append_left own]
          rfl
        have even := first.even _ (List.getElem_mem short)
        rw [value, even] at odd
        cases odd
    · have later : i - first.words.length < (log rest).length := by
        rw [parts, List.length_append] at inside
        omega
      have value : (log (first :: rest))[i] = (log rest)[i - first.words.length] := by
        simp only [parts]
        exact List.getElem_append_right (not_lt.mp own)
      rw [value] at odd
      obtain ⟨before, t, after, rfl, place⟩ := ih later odd
      refine ⟨first :: before, t, after, rfl, ?_⟩
      have length : (log (first :: before)).length = first.words.length + (log before).length := by
        rw [← List.length_append]
        rfl
      omega

end Trace

namespace Depot

variable {z}

/-- The trace is in the ring from this place on. -/
structure StoredAt (d : Depot) (place : Nat) (t : Trace z) : Prop where
  inside : place < z.ringSize
  marker : d.ring place = t.id
  frames : ∀ k (short : k < t.frames.length), d.ring ((place + 1 + k) % z.ringSize) = t.frames[k]

/-- The depot after the traces that were written. -/
structure Sound (d : Depot) (stored : List (Trace z)) : Prop where
  ring : RingHolds z.ringSize d.ring 0 (Trace.log stored)
  ringEnd : d.ringEnd = (Trace.log stored).length % z.ringSize
  tab : ∀ pos, d.tab pos < z.ringSize

variable {d : Depot} {stored : List (Trace z)} {t : Trace z} {place : Nat}

theorem sound_start : start.Sound (z := z) [] :=
  ⟨RingHolds.empty fun _ => rfl, (Nat.zero_mod _).symm, fun _ => Sizes.ringSize_pos⟩

/-- An odd word begins a trace, of which nothing is overwritten. -/
theorem Sound.intact (sound : d.Sound stored) (inside : place < z.ringSize)
    (odd : d.ring place % 2 = 1) : ∃ t ∈ stored, d.StoredAt place t := by
  rcases sound.ring.written inside with blank | ⟨i, before, turn, near, value⟩
  · rw [blank] at odd
    cases odd
  · rw [value] at odd
    obtain ⟨earlier, t, later, rfl, rfl⟩ := Trace.log_odd stored before odd
    have parts : Trace.log (earlier ++ t :: later) =
        Trace.log earlier ++ (t.id :: (t.frames ++ Trace.log later)) := by
      unfold Trace.log
      rw [List.flatMap_append, List.flatMap_cons]
      rfl
    have whole : (Trace.log (earlier ++ t :: later)).length =
        (Trace.log earlier).length + (1 + t.frames.length + (Trace.log later).length) := by
      rw [parts, List.length_append, List.length_cons, List.length_append]
      omega
    refine ⟨t, List.mem_append_right _ List.mem_cons_self, inside, ?_, fun k short => ?_⟩
    · rw [value]
      simp only [parts]
      rw [List.getElem_append_right le_rfl]
      simp
    · have index : (Trace.log earlier).length + 1 + k < (Trace.log (earlier ++ t :: later)).length := by
        omega
      have frame := sound.ring.recent _ index (by omega)
      have turned : ((Trace.log earlier).length + 1 + k) % z.ringSize = (place + 1 + k) % z.ringSize := by
        rw [← turn, Nat.add_assoc, Nat.add_assoc, Nat.mod_add_mod]
      rw [turned] at frame
      rw [frame]
      simp only [parts]
      rw [List.getElem_append_right (by omega)]
      have offset : (Trace.log earlier).length + 1 + k - (Trace.log earlier).length = k + 1 := by omega
      simp only [offset, List.getElem_cons_succ]
      exact List.getElem_append_left short

/-- The frames go behind the last word that was written. -/
theorem storeFrames_holds (frames : List Nat) {ring : Nat → Nat} {log : List Nat} (some_ : log ≠ [])
    (holds : RingHolds z.ringSize ring 0 log) :
    RingHolds z.ringSize (storeFrames z frames (ring, (log.length - 1) % z.ringSize)).1 0
        (log ++ frames) ∧
      (storeFrames z frames (ring, (log.length - 1) % z.ringSize)).2 =
        ((log ++ frames).length - 1) % z.ringSize := by
  induction frames generalizing ring log with
  | nil =>
    rw [List.append_nil]
    exact ⟨holds, rfl⟩
  | cons frame frames ih =>
    have positive := List.length_pos_of_ne_nil some_
    have place : wadd 32 ((log.length - 1) % z.ringSize) 1 &&& z.ringMask =
        log.length % z.ringSize := by
      rw [Sizes.next, Nat.mod_add_mod, Nat.sub_add_cancel positive]
    have last : log.length % z.ringSize = ((log ++ [frame]).length - 1) % z.ringSize := by
      rw [List.length_append, List.length_singleton, Nat.add_sub_cancel]
    have rest := ih (List.append_ne_nil_of_right_ne_nil log (List.cons_ne_nil frame []))
      (holds.push frame)
    rw [← last, List.append_assoc, List.singleton_append] at rest
    unfold storeFrames at rest ⊢
    rw [List.foldl_cons, place]
    exact rest

/-- The part of `insert` that writes. -/
theorem Sound.write (sound : d.Sound stored) (t : Trace z) :
    let ringPos := d.ringEnd
    let written := storeFrames z t.frames (Function.update d.ring ringPos t.id, ringPos)
    Sound (z := z) ⟨wadd 32 written.2 1 &&& z.ringMask, written.1,
      Function.update d.tab (t.hash &&& z.tabMask) ringPos⟩ (stored ++ [t]) := by
  have begun := sound.ring.push t.id
  have last : d.ringEnd = ((Trace.log stored ++ [t.id]).length - 1) % z.ringSize := by
    rw [List.length_append, List.length_singleton, Nat.add_sub_cancel, sound.ringEnd]
  have words : Trace.log (stored ++ [t]) = Trace.log stored ++ [t.id] ++ t.frames := by
    rw [Trace.log_append, List.append_assoc]
    rfl
  rw [← sound.ringEnd] at begun
  obtain ⟨holds, place⟩ := storeFrames_holds t.frames
    (List.append_ne_nil_of_right_ne_nil _ (List.cons_ne_nil t.id [])) begun
  rw [← last, ← words] at holds place
  refine ⟨holds, ?_, fun pos => ?_⟩
  · dsimp only
    have positive : 0 < (Trace.log (stored ++ [t])).length := by
      rw [words, List.length_append, List.length_append, List.length_singleton]
      omega
    rw [place, Sizes.next, Nat.mod_add_mod, Nat.sub_add_cancel positive]
  · dsimp only
    by_cases same : pos = t.hash &&& z.tabMask
    · rw [same, Function.update_self, sound.ringEnd]
      exact Nat.mod_lt _ Sizes.ringSize_pos
    · rw [Function.update_of_ne same]
      exact sound.tab pos

/-- Nothing of the trace that was written last is overwritten. -/
theorem Sound.last_storedAt (sound : d.Sound (stored ++ [t])) :
    d.StoredAt ((Trace.log stored).length % z.ringSize) t := by
  have parts : Trace.log (stored ++ [t]) = Trace.log stored ++ (t.id :: t.frames) := t.log_append stored
  have whole : (Trace.log (stored ++ [t])).length =
      (Trace.log stored).length + (t.frames.length + 1) := by
    rw [parts, List.length_append, List.length_cons]
  have short := t.short
  refine ⟨Nat.mod_lt _ Sizes.ringSize_pos, ?_, fun k inside => ?_⟩
  · have first := sound.ring.recent (Trace.log stored).length (by omega) (by omega)
    rw [first]
    simp only [parts]
    rw [List.getElem_append_right le_rfl]
    simp
  · have frame := sound.ring.recent ((Trace.log stored).length + 1 + k) (by omega) (by omega)
    rw [Nat.add_assoc, Nat.mod_add_mod, ← Nat.add_assoc, frame]
    simp only [parts]
    rw [List.getElem_append_right (by omega)]
    have offset : (Trace.log stored).length + 1 + k - (Trace.log stored).length = k + 1 := by omega
    simp only [offset, List.getElem_cons_succ]

section Reading

theorem hashFrames_succ (count : Nat) (from_ : Nat × Nat) :
    d.hashFrames z (count + 1) from_ =
      (((d.hashFrames z count from_).1 + 1) % z.ringSize, addFrame (d.hashFrames z count from_).2
        (d.ring (((d.hashFrames z count from_).1 + 1) % z.ringSize))) := by
  unfold Depot.hashFrames
  rw [List.range_succ, List.foldl_append, List.foldl_cons, List.foldl_nil, Sizes.next]

/-- The frames of a trace in the ring are hashed one after the other. -/
theorem StoredAt.hashFrames_upTo (there : d.StoredAt place t) (h : Nat) {count : Nat}
    (le : count ≤ t.frames.length) : d.hashFrames z count (place, h) =
      ((place + count) % z.ringSize, (t.frames.take count).foldl addFrame h) := by
  induction count with
  | zero =>
    rw [Nat.add_zero, Nat.mod_eq_of_lt there.inside]
    rfl
  | succ count ih =>
    have frame := there.frames count (by omega)
    have turned : place + 1 + count = place + count + 1 := by omega
    rw [hashFrames_succ, ih (by omega), Nat.mod_add_mod, ← turned, frame, turned,
      List.take_succ_eq_append_getElem (by omega), List.foldl_append, List.foldl_cons, List.foldl_nil,
      Nat.add_assoc]

theorem StoredAt.hashFrames (there : d.StoredAt place t) :
    (d.hashFrames z t.frames.length (place, init)).2 = t.frames.foldl addFrame init := by
  rw [there.hashFrames_upTo init le_rfl, List.take_length]

/-- A trace that the table leads to is found. -/
theorem StoredAt.found (there : d.StoredAt (d.tab (t.hash &&& z.tabMask)) t) :
    d.find z t.hash = some ((d.tab (t.hash &&& z.tabMask) + 1) % z.ringSize, t.frames.length) := by
  have bound := hashOf_lt t.frames
  have tag := marker_tag t.small bound
  have size := marker_size t.small bound
  have hashed : get (d.hashFrames z t.frames.length (d.tab (t.hash &&& z.tabMask), init)).2 =
      t.hash := by
    rw [there.hashFrames]
    rfl
  change t.id &&& _ = wrap 64 (t.hash <<< 1) ||| 1 at tag
  change wrap 32 (t.id >>> 33) = _ at size
  unfold find
  dsimp only
  rw [if_neg (not_le.mpr there.inside), there.marker, if_neg (not_not.mpr tag), size,
    if_neg (not_le.mpr t.short), if_pos hashed, Sizes.next]

/-- What is found is read whole. -/
theorem StoredAt.read (there : d.StoredAt place t) :
    d.framesAt z ((place + 1) % z.ringSize) t.frames.length = t.frames := by
  unfold framesAt frameAt
  apply List.ext_getElem
  · exact (List.length_map _).trans List.length_range
  · intro k _ inside
    rw [List.getElem_map, List.getElem_range, Sizes.behind, Nat.mod_add_mod]
    exact there.frames k inside

/-- Where something is found, the table leads to a trace with that hash. -/
theorem Sound.of_find (sound : d.Sound stored) {hash pos size : Nat}
    (found : d.find z hash = some (pos, size)) :
    ∃ t ∈ stored, d.StoredAt (d.tab (hash &&& z.tabMask)) t ∧ t.hash = hash ∧
      pos = (d.tab (hash &&& z.tabMask) + 1) % z.ringSize ∧ size = t.frames.length := by
  have inside := sound.tab (hash &&& z.tabMask)
  unfold find at found
  dsimp only at found
  rw [if_neg (not_le.mpr inside)] at found
  split_ifs at found with tag _ hashed
  cases found
  have odd : d.ring (d.tab (hash &&& z.tabMask)) % 2 = 1 := by
    have low : (d.ring (d.tab (hash &&& z.tabMask)) &&& 0x1ffffffff) % 2 =
        d.ring (d.tab (hash &&& z.tabMask)) % 2 := by
      have mask : 0x1ffffffff = 2 ^ 33 - 1 := rfl
      rw [mask, Nat.and_two_pow_sub_one_eq_mod]
      omega
    rw [← low, not_not.mp tag, Nat.shiftLeft_eq]
    exact Nat.or_mod_two_eq_one.mpr (Or.inr rfl)
  obtain ⟨t, member, there⟩ := sound.intact inside odd
  have length : wrap 32 (d.ring (d.tab (hash &&& z.tabMask)) >>> 33) = t.frames.length := by
    rw [there.marker]
    exact marker_size t.small (hashOf_lt _)
  rw [length, there.hashFrames] at hashed
  exact ⟨t, member, there, hashed, Sizes.next, length⟩

end Reading

/-- What `insert` does, by whether the marker is where the table leads. -/
theorem insert_cases (d : Depot) (t : Trace z) :
    d.ring (d.tab (t.hash &&& z.tabMask)) = t.id ∧ d.insert z t.frames = (t.hash, d) ∨
    (d.insert z t.frames).1 = t.hash ∧ (d.insert z t.frames).2.tab (t.hash &&& z.tabMask) = d.ringEnd ∧
      ∀ stored : List (Trace z), d.Sound stored → (d.insert z t.frames).2.Sound (stored ++ [t]) := by
  by_cases present : d.ring (d.tab (t.hash &&& z.tabMask)) = t.id
  · exact Or.inl ⟨present, if_pos present⟩
  · right
    have written : d.insert z t.frames = _ := if_neg present
    rw [written]
    exact ⟨rfl, Function.update_self _ _ _, fun stored sound => sound.write t⟩

theorem Sound.insert (sound : d.Sound stored) (t : Trace z) :
    ∃ stored', (d.insert z t.frames).2.Sound stored' ∧ ∀ u ∈ stored', u ∈ stored ∨ u = t := by
  rcases d.insert_cases t with ⟨_, same⟩ | ⟨_, _, keeps⟩
  · rw [same]
    exact ⟨stored, sound, fun u member => Or.inl member⟩
  · refine ⟨stored ++ [t], keeps stored sound, fun u member => ?_⟩
    rcases List.mem_append.mp member with member | member
    · exact Or.inl member
    · exact Or.inr (List.mem_singleton.mp member)

/-- The trace is found at once, or another one with its hash and its length. -/
theorem Sound.insert_found (sound : d.Sound stored) (t : Trace z) :
    ∃ pos, (d.insert z t.frames).2.find z t.hash = some (pos, t.frames.length) ∧
      ((d.insert z t.frames).2.framesAt z pos t.frames.length = t.frames ∨
        ∃ u ∈ stored, u.frames ≠ t.frames ∧ u.hash = t.hash ∧ u.frames.length = t.frames.length ∧
          ∃ place, d.StoredAt place u) := by
  rcases d.insert_cases t with ⟨present, same⟩ | ⟨_, tab, keeps⟩
  · rw [same]
    have odd : d.ring (d.tab (t.hash &&& z.tabMask)) % 2 = 1 := by
      rw [present]
      exact t.id_odd
    obtain ⟨u, member, there⟩ := sound.intact (sound.tab _) odd
    obtain ⟨length, hash⟩ := marker_injective u.small (hashOf_lt u.frames) t.small
      (hashOf_lt t.frames) (there.marker.symm.trans present)
    change u.hash = t.hash at hash
    have whole := there
    rw [← hash] at whole
    have found := whole.found
    rw [hash, length] at found
    refine ⟨_, found, ?_⟩
    by_cases own : u.frames = t.frames
    · left
      have read := there.read
      rwa [own] at read
    · exact Or.inr ⟨u, member, own, hash, length, _, there⟩
  · have after := keeps stored sound
    have there := after.last_storedAt
    rw [← sound.ringEnd, ← tab] at there
    exact ⟨_, there.found, Or.inl there.read⟩

/-- The depot after calls of `insert` one after the other. -/
def run (traces : List (Trace z)) : Depot :=
  traces.foldl (fun d t => (d.insert z t.frames).2) start

theorem run_sound (traces : List (Trace z)) :
    ∃ stored : List (Trace z), (run traces).Sound stored ∧ ∀ t ∈ stored, t ∈ traces := by
  induction traces using List.reverseRecOn with
  | nil => exact ⟨[], sound_start, fun _ member => member⟩
  | append_singleton traces t ih =>
    obtain ⟨stored, sound, inserted⟩ := ih
    obtain ⟨stored', sound', added⟩ := sound.insert t
    refine ⟨stored', ?_, fun u member => ?_⟩
    · unfold run at sound' ⊢
      rw [List.foldl_append]
      exact sound'
    · rcases added u member with old | rfl
      · exact List.mem_append_left _ (inserted u old)
      · exact List.mem_append_right _ (List.mem_singleton_self _)

/-- After `insert` the trace can be read at the place that `find` tells, unless there is another trace
with its hash and length in the ring. What `find` leads to at any time is the whole of a trace that was
inserted. -/
theorem insert_find_intact (traces : List (Trace z)) :
    (∀ t : Trace z, ((run traces).insert z t.frames).1 = t.hash ∧
      ∃ pos, ((run traces).insert z t.frames).2.find z t.hash = some (pos, t.frames.length) ∧
        (((run traces).insert z t.frames).2.framesAt z pos t.frames.length = t.frames ∨
          ∃ u ∈ traces, u.frames ≠ t.frames ∧ u.hash = t.hash ∧
            u.frames.length = t.frames.length ∧ ∃ place, (run traces).StoredAt place u)) ∧
    ∀ hash pos size, (run traces).find z hash = some (pos, size) →
      ∃ t ∈ traces, (run traces).StoredAt ((run traces).tab (hash &&& z.tabMask)) t ∧
        t.hash = hash ∧ t.frames.length = size ∧ (run traces).framesAt z pos size = t.frames := by
  obtain ⟨stored, sound, inserted⟩ := run_sound traces
  constructor
  · intro t
    constructor
    · rcases (run traces).insert_cases t with ⟨_, same⟩ | ⟨hash, _⟩
      · rw [same]
      · exact hash
    · obtain ⟨pos, found, read⟩ := sound.insert_found t
      refine ⟨pos, found, ?_⟩
      rcases read with read | ⟨u, member, other⟩
      · exact Or.inl read
      · exact Or.inr ⟨u, inserted u member, other⟩
  · intro hash pos size found
    obtain ⟨t, member, there, same, rfl, rfl⟩ := sound.of_find found
    exact ⟨t, inserted t member, there, same, rfl, there.read⟩

section Image

/-- A buffer of another process that has the words of a depot. -/
structure Image (buffer : ErrorInfo.StackDepot) (z : Sizes) (d : Depot) : Prop where
  fits : buffer.Fits z.ringSize z.tabMask
  ring : ∀ place < z.ringSize, buffer.ring place = .ok (d.ring place)
  tab : ∀ pos ≤ z.tabMask, buffer.tab pos = .ok (d.tab pos)

namespace Image

variable {buffer : ErrorInfo.StackDepot}

theorem masked (image : Image buffer z d) (place : Nat) :
    buffer.ring (place &&& z.ringMask) = .ok (d.ring (place &&& z.ringMask)) :=
  image.ring _ (image.fits.masked_lt place)

theorem hashFrames (image : Image buffer z d) (size : Nat) (from_ : Nat × Nat) :
    buffer.hashFrames size z.ringMask from_ = .ok (d.hashFrames z size from_) := by
  unfold ErrorInfo.StackDepot.hashFrames Depot.hashFrames
  induction List.range size generalizing from_ with
  | nil => rfl
  | cons first rest ih =>
    rw [List.foldlM_cons, List.foldl_cons]
    dsimp only
    rw [image.masked]
    exact ih _

theorem ok_bind {α β : Type} (a : α) (next : α → ErrorInfo.Checked β) :
    ((.ok a : ErrorInfo.Checked α) >>= next) = next a := rfl

theorem find (image : Image buffer z d) (hash : Nat) : buffer.find hash = .ok (d.find z hash) := by
  have ringMask : buffer.ringMask = .ok z.ringMask := image.fits.ringMask
  unfold ErrorInfo.StackDepot.find Depot.find
  dsimp only
  rw [image.fits.tabMask, ok_bind, image.tab _ Nat.and_le_right, ok_bind, image.fits.ringSize, ok_bind]
  by_cases outside : z.ringSize ≤ d.tab (hash &&& z.tabMask)
  · rw [if_pos outside, if_pos outside]
    rfl
  · rw [if_neg outside, if_neg outside, image.ring _ (not_le.mp outside), ok_bind, ringMask, ok_bind,
      image.hashFrames, ok_bind]
    split_ifs
    · rfl
    · rfl
    · rfl
    · rfl

/-- What another process finds in the depot is the whole of a trace that was inserted. -/
theorem reads_inserted {traces : List (Trace z)} (image : Image buffer z (run traces))
    {hash pos size : Nat} (found : buffer.find hash = .ok (some (pos, size))) :
    ∃ t ∈ traces, t.hash = hash ∧ t.frames.length = size ∧
      ∀ k (short : k < t.frames.length), buffer.frameAt (wadd 64 pos k) = .ok t.frames[k] := by
  obtain ⟨stored, sound, inserted⟩ := run_sound traces
  rw [image.find] at found
  obtain ⟨t, member, there, same, rfl, rfl⟩ := sound.of_find (Except.ok.inj found)
  refine ⟨t, inserted t member, same, rfl, fun k short => ?_⟩
  have frame := there.frames k short
  have ringMask : buffer.ringMask = .ok z.ringMask := image.fits.ringMask
  unfold ErrorInfo.StackDepot.frameAt
  rw [ringMask]
  change buffer.ring (_ &&& z.ringMask) = _
  rw [image.masked, Sizes.behind, Nat.mod_add_mod, frame]

end Image

end Image

end Depot

end Scudo.StackDepot
