import Scudo.Common
import Scudo.Lib.Span
import Scudo.Lib.Tally
import Scudo.Lib.Transition

/-!
The regions of `SizeClassAllocator32`. They are cut from mappings of twice their size, and one that is
left over is stashed. The classes allocate regions at the same time, each under its own lock; the stash
has a lock of its own.
-/

namespace Scudo.Primary.Allocator32
open Scudo.Lib

/-- The parameters of the allocator, which has `n` classes. A `uptr` has `w` bits. -/
structure RegionConfig (n : Nat) where
  w : Nat
  regionSizeLog : Nat
  mmapRangeSize : Nat
  double : 2 * 2 ^ regionSizeLog < 2 ^ w
  classes : n ≤ 255

namespace RegionConfig

variable {n : Nat} (c : RegionConfig n)

def regionSize : Nat := 1 <<< c.regionSizeLog

def numRegions : Nat := c.mmapRangeSize >>> c.regionSizeLog

theorem regionSize_eq : c.regionSize = 2 ^ c.regionSizeLog := Nat.one_shiftLeft _

end RegionConfig

def maxStashedRegions : Nat := 4

/-- Where the call of `allocateRegion` for a class is. -/
inductive Call where
  | outside
  | popping
  /-- In `allocateRegionSlow`: before `map`, after it, and before the end of the mapping is unmapped. -/
  | mapping
  | placing (mapBase : Nat)
  | trimming (mapBase region mapSize : Nat)
  /-- Before the region is entered in `PossibleRegions`. -/
  | entering (region : Nat)
  deriving DecidableEq, Repr

/-- `stash` is `RegionsStash[0..NumberOfStashedRegions)`, `mapped` tells which bytes the allocator has
mapped, and `given` are the regions that were returned, with the classes that asked for them. -/
structure Regions (n : Nat) where
  stash : List Nat
  possibleRegions : Nat → Nat
  minRegionIndex : Fin n → Nat
  maxRegionIndex : Fin n → Nat
  call : Fin n → Call
  mapped : Nat → Bool
  given : List (Fin n × Nat)

namespace Regions

variable {n : Nat}

def move (s : Regions n) (I : Fin n) (call : Call) : Regions n :=
  { s with call := Function.update s.call I call }

def mark (s : Regions n) (start size : Nat) (isMapped : Bool) : Regions n :=
  { s with mapped := fun p => if start ≤ p ∧ p < start + size then isMapped else s.mapped p }

variable (c : RegionConfig n)

/-- `Sci` and `PossibleRegions` where a region is returned. -/
def enter (s : Regions n) (I : Fin n) (region : Nat) : Regions n :=
  let regionIndex := region >>> c.regionSizeLog
  { s with
    minRegionIndex := if regionIndex < s.minRegionIndex I then
        Function.update s.minRegionIndex I regionIndex else s.minRegionIndex
    maxRegionIndex := if regionIndex > s.maxRegionIndex I then
        Function.update s.maxRegionIndex I regionIndex else s.maxRegionIndex
    possibleRegions := Function.update s.possibleRegions regionIndex (wrap 8 (I.val + 1))
    given := (I, region) :: s.given }

/-- The next part of the call for a class; `mapBase` is what `map` returns. Nothing stands for the end
of the process, where the region has no index. -/
def advance (s : Regions n) (I : Fin n) (mapBase : Nat) : Option (Regions n) :=
  match s.call I with
  | .outside => some (s.move I .popping)
  | .popping =>
    let region := s.stash.getLast?.getD 0
    some (({ s with stash := s.stash.dropLast }).move I
      (if region = 0 then .mapping else .entering region))
  | .mapping =>
    if mapBase = 0 then some (s.move I .outside)
    else some ((s.mark mapBase (2 * c.regionSize) true).move I (.placing mapBase))
  | .placing mapBase =>
    if isAligned mapBase c.regionSize then
      if s.stash.length < maxStashedRegions then
        some (({ s with stash := s.stash ++ [wadd c.w mapBase c.regionSize] }).move I
          (.trimming mapBase mapBase (2 * c.regionSize)))
      else some (s.move I (.trimming mapBase mapBase c.regionSize))
    else
      let region := roundUp c.w mapBase c.regionSize
      some ((s.mark mapBase (wsub c.w region mapBase) false).move I
        (.trimming mapBase region c.regionSize))
  | .trimming mapBase region mapSize =>
    let mapEnd := wadd c.w mapBase (2 * c.regionSize)
    let end_ := wadd c.w region mapSize
    some ((if end_ ≠ mapEnd then s.mark end_ (wsub c.w mapEnd end_) false else s).move I
      (.entering region))
  | .entering region =>
    if region = 0 then some (s.move I .outside)
    else if region >>> c.regionSizeLog < c.numRegions then some ((s.enter c I region).move I .outside)
    else none

/-- A mapping that succeeds does not wrap and is nowhere where the allocator has mapped anything. -/
def Maps (s : Regions n) (mapBase : Nat) : Prop :=
  mapBase ≠ 0 → mapBase + 2 * c.regionSize ≤ 2 ^ c.w ∧
    ∀ p, mapBase ≤ p → p < mapBase + 2 * c.regionSize → s.mapped p = false

inductive Step : Regions n → Regions n → Prop
  | advance {s s' : Regions n} (I : Fin n) (mapBase : Nat) (maps : s.Maps c mapBase)
      (moves : s.advance c I mapBase = some s') : Step s s'

structure Initial (s : Regions n) : Prop where
  stash : s.stash = []
  possibleRegions : ∀ i, s.possibleRegions i = 0
  minRegionIndex : ∀ I, s.minRegionIndex I = c.numRegions
  maxRegionIndex : ∀ I, s.maxRegionIndex I = 0
  call : ∀ I, s.call I = .outside
  mapped : ∀ p, s.mapped p = false
  given : s.given = []

end Regions

def regions {n : Nat} (c : RegionConfig n) : System (Regions n) where
  init := Regions.Initial c
  step := Regions.Step c

section Invariant

variable {n : Nat} (c : RegionConfig n)

def regionSpan (region : Nat) : Span := ⟨region, c.regionSize⟩

/-- What a call has of the mapped memory. -/
def Call.pieces : Call → List Span
  | .placing mapBase => [⟨mapBase, 2 * c.regionSize⟩]
  | .trimming mapBase region mapSize =>
    if mapSize = c.regionSize then [⟨region, mapBase + 2 * c.regionSize - region⟩]
    else [regionSpan c region]
  | .entering region => [regionSpan c region]
  | _ => []

structure IsRegion (region : Nat) : Prop where
  some_ : region ≠ 0
  aligned : c.regionSize ∣ region
  inside : region + c.regionSize ≤ 2 ^ c.w

def Call.Fine : Call → Prop
  | .placing mapBase => mapBase ≠ 0 ∧ mapBase + 2 * c.regionSize ≤ 2 ^ c.w
  | .trimming mapBase region mapSize => mapBase + 2 * c.regionSize ≤ 2 ^ c.w ∧ IsRegion c region ∧
      (mapSize = 2 * c.regionSize ∧ region = mapBase ∨
        mapSize = c.regionSize ∧ mapBase ≤ region ∧ region < mapBase + c.regionSize)
  | .entering region => IsRegion c region
  | _ => True

def bit (b : Bool) : Nat := if b then 1 else 0

@[simp] theorem bit_true : bit true = 1 := rfl
@[simp] theorem bit_false : bit false = 0 := rfl

theorem bit_le (b : Bool) : bit b ≤ 1 := by
  cases b <;> decide

theorem of_bit_pos {b : Bool} (positive : 0 < bit b) : b = true := by
  cases b with
  | true => rfl
  | false => exact absurd positive (by decide)

namespace Regions

/-- What is handed out or stashed. -/
def kept (s : Regions n) : List Span :=
  s.stash.map (regionSpan c) ++ s.given.map fun g => regionSpan c g.2

/-- Every mapped byte is in one place, and no other byte is anywhere. -/
structure Sound (s : Regions n) : Prop where
  total : ∀ p, (∑ I, load ((s.call I).pieces c) p) + load (s.kept c) p = bit (s.mapped p)
  fine : ∀ I, (s.call I).Fine c
  stash : ∀ region ∈ s.stash, IsRegion c region
  stash_le : s.stash.length ≤ maxStashedRegions
  given : ∀ g ∈ s.given, IsRegion c g.2
  recorded : ∀ g ∈ s.given, s.possibleRegions (g.2 >>> c.regionSizeLog) = g.1.val + 1 ∧
    s.minRegionIndex g.1 ≤ g.2 >>> c.regionSizeLog ∧ g.2 >>> c.regionSizeLog ≤ s.maxRegionIndex g.1

variable {c} {s s' : Regions n} {I : Fin n} {mapBase : Nat}

@[simp] theorem move_stash (call : Call) : (s.move I call).stash = s.stash := rfl
@[simp] theorem move_given (call : Call) : (s.move I call).given = s.given := rfl
@[simp] theorem move_mapped (call : Call) : (s.move I call).mapped = s.mapped := rfl
@[simp] theorem move_kept (call : Call) : (s.move I call).kept c = s.kept c := rfl
@[simp] theorem mark_kept (start size : Nat) (isMapped : Bool) :
    (s.mark start size isMapped).kept c = s.kept c := rfl

theorem mark_mapped (start size : Nat) (isMapped : Bool) (p : Nat) :
    (s.mark start size isMapped).mapped p =
      if start ≤ p ∧ p < start + size then isMapped else s.mapped p := rfl

theorem regionSize_pos : 0 < c.regionSize := by
  rw [c.regionSize_eq]
  exact Nat.two_pow_pos _

theorem regionSize_power : isPowerOfTwo c.regionSize = true :=
  isPowerOfTwo_iff.mpr ⟨_, c.regionSize_eq⟩

/-- One call moves on: what it gives up is kept or unmapped. -/
theorem Sound.total_move (sound : s.Sound c) {call : Call} {kept : List Span} {mapped : Nat → Bool}
    (lost gained : Nat → Nat)
    (exchange : ∀ p, load (call.pieces c) p + load kept p + lost p =
      load ((s.call I).pieces c) p + load (s.kept c) p + gained p)
    (bytes : ∀ p, bit (mapped p) + lost p = bit (s.mapped p) + gained p) (p : Nat) :
    (∑ J, load ((Function.update s.call I call J).pieces c) p) + load kept p = bit (mapped p) := by
  have total := sum_update_exchange (fun call : Call => load (call.pieces c) p) (exchange p)
  have before := sound.total p
  have after := bytes p
  omega

/-- Nothing is unmapped. -/
theorem Sound.total_keep (sound : s.Sound c) {call : Call} {kept : List Span}
    (exchange : ∀ p, load (call.pieces c) p + load kept p =
      load ((s.call I).pieces c) p + load (s.kept c) p) (p : Nat) :
    (∑ J, load ((Function.update s.call I call J).pieces c) p) + load kept p = bit (s.mapped p) :=
  sound.total_move (fun _ => 0) (fun _ => 0) exchange (fun _ => rfl) p

/-- What a call has and what is kept is no more than what is mapped. -/
theorem Sound.load_le (sound : s.Sound c) (I : Fin n) (p : Nat) :
    load ((s.call I).pieces c) p + load (s.kept c) p ≤ bit (s.mapped p) := by
  have own : load ((s.call I).pieces c) p ≤ ∑ J, load ((s.call J).pieces c) p :=
    Finset.single_le_sum (f := fun J => load ((s.call J).pieces c) p) (fun _ _ => Nat.zero_le _)
      (Finset.mem_univ I)
  rw [← sound.total p]
  exact Nat.add_le_add_right own _

/-- What a call has is mapped. -/
theorem Sound.mapped_of_piece (sound : s.Sound c) {piece : Span}
    (member : piece ∈ (s.call I).pieces c) {p : Nat} (inside : piece.has p = true) :
    s.mapped p = true := by
  have held := sound.load_le I p
  have positive := load_pos member inside
  exact of_bit_pos (by omega)

theorem fine_move {call : Call} (fine : ∀ J, (s.call J).Fine c) (own : call.Fine c) (J : Fin n) :
    (Function.update s.call I call J).Fine c := by
  by_cases same : J = I
  · subst same
    rw [Function.update_self]
    exact own
  · rw [Function.update_of_ne same]
    exact fine J

/-- Only the call for a class changes. -/
theorem Sound.move (sound : s.Sound c) {call : Call} (fine : call.Fine c)
    (pieces : call.pieces c = (s.call I).pieces c) : (s.move I call).Sound c where
  total := sound.total_keep fun p => by
    rw [pieces]
    rfl
  fine := fine_move sound.fine fine
  stash := sound.stash
  stash_le := sound.stash_le
  given := sound.given
  recorded := sound.recorded

/-- The last region of the stash, or none. -/
theorem Sound.pop (sound : s.Sound c) (at_ : s.call I = .popping) :
    (({ s with stash := s.stash.dropLast } : Regions n).move I
      (if s.stash.getLast?.getD 0 = 0 then .mapping else .entering (s.stash.getLast?.getD 0))).Sound c := by
  cases empty : s.stash.getLast? with
  | none =>
    have nil : s.stash = [] := List.getLast?_eq_none_iff.mp empty
    have same : ({ s with stash := s.stash.dropLast } : Regions n) = s := by
      rw [nil]
      cases s
      dsimp only at nil ⊢
      rw [nil]
      rfl
    rw [same]
    exact sound.move trivial (by rw [at_]; rfl)
  | some region =>
    have parts : s.stash.dropLast ++ [region] = s.stash := List.dropLast_append_getLast? region empty
    have own : IsRegion c region := sound.stash region (List.mem_of_getLast? empty)
    rw [Option.getD_some, if_neg own.some_]
    refine ⟨?_, fine_move sound.fine own, ?_, ?_, sound.given, sound.recorded⟩
    · refine sound.total_keep fun p => ?_
      rw [at_, move_kept]
      unfold kept
      dsimp only
      rw [← parts]
      simp only [Call.pieces, List.map_append, load_append, List.map_cons, List.map_nil, load_nil,
        List.dropLast_concat]
      omega
    · exact fun r member => sound.stash r (List.mem_of_mem_dropLast member)
    · have le := sound.stash_le
      change s.stash.dropLast.length ≤ _
      rw [List.length_dropLast]
      omega

theorem Sound.map (sound : s.Sound c) (at_ : s.call I = .mapping) (some_ : mapBase ≠ 0)
    (maps : s.Maps c mapBase) :
    ((s.mark mapBase (2 * c.regionSize) true).move I (.placing mapBase)).Sound c := by
  obtain ⟨inside, free⟩ := maps some_
  refine ⟨?_, fine_move sound.fine ⟨some_, inside⟩, sound.stash, sound.stash_le, sound.given,
    sound.recorded⟩
  refine sound.total_move (fun _ => 0) (load [⟨mapBase, 2 * c.regionSize⟩]) ?_ ?_
  · intro p
    rw [at_]
    change load [⟨mapBase, 2 * c.regionSize⟩] p + load (s.kept c) p + 0 =
      0 + load (s.kept c) p + load [⟨mapBase, 2 * c.regionSize⟩] p
    omega
  · intro p
    rw [move_mapped, mark_mapped]
    simp only [load_cons, load_nil, Span.has_iff, Span.stop]
    split_ifs with there
    · rw [free p there.1 there.2]
      rfl
    · omega

/-- The end of what a call has is unmapped. -/
theorem unmap_bytes (sound : s.Sound c) {piece : Span} (member : piece ∈ (s.call I).pieces c)
    {start size : Nat} (after : piece.start ≤ start) (before : start + size ≤ piece.stop) (p : Nat) :
    bit ((s.mark start size false).mapped p) + load [⟨start, size⟩] p = bit (s.mapped p) + 0 := by
  rw [mark_mapped]
  simp only [load_cons, load_nil, Span.has_iff, Span.stop]
  split_ifs with there
  · rw [sound.mapped_of_piece member ((piece.has_iff p).mpr ⟨by omega, by omega⟩)]
    rfl
  · omega

/-- The second half of an aligned mapping is stashed. -/
theorem Sound.stashHalf (sound : s.Sound c) (at_ : s.call I = .placing mapBase)
    (aligned : c.regionSize ∣ mapBase) (room : s.stash.length < maxStashedRegions) :
    (({ s with stash := s.stash ++ [wadd c.w mapBase c.regionSize] } : Regions n).move I
      (.trimming mapBase mapBase (2 * c.regionSize))).Sound c := by
  have positive : 0 < c.regionSize := regionSize_pos
  have fine := sound.fine I
  rw [at_] at fine
  obtain ⟨some_, inside⟩ := fine
  have second : wadd c.w mapBase c.regionSize = mapBase + c.regionSize := wadd_eq (by omega)
  have region : IsRegion c mapBase := ⟨some_, aligned, by omega⟩
  have other : IsRegion c (mapBase + c.regionSize) :=
    ⟨by omega, (Nat.dvd_add_right aligned).mpr (dvd_refl _), by omega⟩
  rw [second]
  refine ⟨?_, fine_move sound.fine ⟨inside, region, Or.inl ⟨rfl, rfl⟩⟩, ?_, ?_, sound.given,
    sound.recorded⟩
  · refine sound.total_keep fun p => ?_
    have pieces : (Call.trimming mapBase mapBase (2 * c.regionSize)).pieces c =
        [regionSpan c mapBase] := if_neg (by omega)
    rw [at_, pieces, move_kept]
    unfold kept
    simp only [Call.pieces, regionSpan, List.map_append, List.map_cons, List.map_nil, load_append,
      load_cons, load_nil, Span.has_iff, Span.stop]
    split_ifs <;> omega
  · intro r member
    rcases List.mem_append.mp member with member | member
    · exact sound.stash r member
    · rw [List.mem_singleton.mp member]
      exact other
  · change (s.stash ++ [_]).length ≤ _
    rw [List.length_append, List.length_singleton]
    exact room

/-- A mapping that is not aligned loses its beginning. -/
theorem Sound.trimHead (sound : s.Sound c) (at_ : s.call I = .placing mapBase) :
    ((s.mark mapBase (wsub c.w (roundUp c.w mapBase c.regionSize) mapBase) false).move I
      (.trimming mapBase (roundUp c.w mapBase c.regionSize) c.regionSize)).Sound c := by
  have positive : 0 < c.regionSize := regionSize_pos
  have fine := sound.fine I
  rw [at_] at fine
  obtain ⟨some_, inside⟩ := fine
  have rounded : roundUp c.w mapBase c.regionSize = roundUpSlow mapBase c.regionSize :=
    roundUp_eq regionSize_power (by omega) (by omega)
  have above := le_roundUpSlow mapBase positive
  have below := roundUpSlow_lt mapBase positive
  have multiple : c.regionSize ∣ roundUpSlow mapBase c.regionSize := Dvd.intro_left _ rfl
  rw [rounded]
  generalize roundUpSlow mapBase c.regionSize = region at *
  rw [wsub_eq (by omega) above]
  refine ⟨?_, fine_move sound.fine ⟨inside, ⟨by omega, multiple, by omega⟩,
    Or.inr ⟨rfl, above, by omega⟩⟩, sound.stash, sound.stash_le, sound.given, sound.recorded⟩
  have member : (⟨mapBase, 2 * c.regionSize⟩ : Span) ∈ (s.call I).pieces c := by
    rw [at_]
    exact List.mem_singleton_self _
  refine sound.total_move (load [⟨mapBase, region - mapBase⟩]) (fun _ => 0) ?_ ?_
  · intro p
    have pieces : (Call.trimming mapBase region c.regionSize).pieces c =
        [⟨region, mapBase + 2 * c.regionSize - region⟩] := if_pos rfl
    rw [at_, pieces, move_kept, mark_kept]
    simp only [Call.pieces, load_cons, load_nil, Span.has_iff, Span.stop]
    split_ifs <;> omega
  · exact unmap_bytes sound member le_rfl (by change _ ≤ mapBase + 2 * c.regionSize; omega)

/-- What is behind the region is unmapped. -/
theorem Sound.trimTail {region mapSize : Nat} (sound : s.Sound c)
    (at_ : s.call I = .trimming mapBase region mapSize) :
    ((if wadd c.w region mapSize ≠ wadd c.w mapBase (2 * c.regionSize) then
        s.mark (wadd c.w region mapSize)
          (wsub c.w (wadd c.w mapBase (2 * c.regionSize)) (wadd c.w region mapSize)) false
      else s).move I (.entering region)).Sound c := by
  have positive : 0 < c.regionSize := regionSize_pos
  have fine := sound.fine I
  rw [at_] at fine
  obtain ⟨inside, own, ⟨rfl, rfl⟩ | ⟨rfl, above, below⟩⟩ := fine
  · rw [if_neg (not_not.mpr rfl)]
    refine sound.move own ?_
    rw [at_]
    exact (if_neg (by omega)).symm
  · have end_ : wadd c.w region c.regionSize = region + c.regionSize := wadd_eq (by omega)
    have rest : wsub c.w (wadd c.w mapBase (2 * c.regionSize)) (region + c.regionSize) =
        mapBase + 2 * c.regionSize - (region + c.regionSize) := by
      have distance := wsub_wrap (w := c.w) (x := mapBase + 2 * c.regionSize)
        (y := region + c.regionSize) (by omega) (by omega)
      rwa [wrap_eq (x := region + c.regionSize) (by omega)] at distance
    have different : region + c.regionSize ≠ wadd c.w mapBase (2 * c.regionSize) := by
      intro same
      rw [← same] at rest
      rw [wsub_eq (by omega) le_rfl] at rest
      omega
    rw [end_, if_pos different, rest]
    have pieces : (Call.trimming mapBase region c.regionSize).pieces c =
        [⟨region, mapBase + 2 * c.regionSize - region⟩] := if_pos rfl
    have member : (⟨region, mapBase + 2 * c.regionSize - region⟩ : Span) ∈ (s.call I).pieces c := by
      rw [at_, pieces]
      exact List.mem_singleton_self _
    refine ⟨?_, fine_move sound.fine own, sound.stash, sound.stash_le, sound.given, sound.recorded⟩
    refine sound.total_move
      (load [⟨region + c.regionSize, mapBase + 2 * c.regionSize - (region + c.regionSize)⟩])
      (fun _ => 0) ?_ ?_
    · intro p
      rw [at_, pieces, move_kept, mark_kept]
      simp only [Call.pieces, regionSpan, load_cons, load_nil, Span.has_iff, Span.stop]
      split_ifs <;> omega
    · refine unmap_bytes sound member (Nat.le_add_right _ _) ?_
      change _ ≤ region + (mapBase + 2 * c.regionSize - region)
      omega

/-- Where the stash is full, the second half is unmapped later. -/
theorem Sound.placeAligned (sound : s.Sound c) (at_ : s.call I = .placing mapBase)
    (aligned : c.regionSize ∣ mapBase) :
    (s.move I (.trimming mapBase mapBase c.regionSize)).Sound c := by
  have positive : 0 < c.regionSize := regionSize_pos
  have fine := sound.fine I
  rw [at_] at fine
  obtain ⟨some_, inside⟩ := fine
  refine sound.move ⟨inside, ⟨some_, aligned, by omega⟩, Or.inr ⟨rfl, le_rfl, by omega⟩⟩ ?_
  have size : mapBase + 2 * c.regionSize - mapBase = 2 * c.regionSize := Nat.add_sub_cancel_left _ _
  rw [at_]
  calc (Call.trimming mapBase mapBase c.regionSize).pieces c
      = [⟨mapBase, mapBase + 2 * c.regionSize - mapBase⟩] := if_pos rfl
    _ = [⟨mapBase, 2 * c.regionSize⟩] := by rw [size]

/-- Aligned regions that share an index are one region. -/
theorem index_ne {a b : Nat} (alignedA : c.regionSize ∣ a) (alignedB : c.regionSize ∣ b)
    (apart : (regionSpan c a).Apart (regionSpan c b)) :
    a >>> c.regionSizeLog ≠ b >>> c.regionSizeLog := by
  have positive : 0 < c.regionSize := regionSize_pos
  rw [Nat.shiftRight_eq_div_pow, Nat.shiftRight_eq_div_pow, ← c.regionSize_eq]
  intro same
  have equal : a = b := by
    calc a = a / c.regionSize * c.regionSize := (Nat.div_mul_cancel alignedA).symm
      _ = b / c.regionSize * c.regionSize := by rw [same]
      _ = b := Nat.div_mul_cancel alignedB
  subst equal
  simp only [Span.Apart, Span.stop, regionSpan] at apart
  omega

/-- Nothing is in two places. -/
theorem Sound.single (sound : s.Sound c) (p : Nat) :
    load ((s.call I).pieces c) p + load (s.kept c) p ≤ 1 :=
  (sound.load_le I p).trans (bit_le _)

theorem enter_min (region : Nat) (J : Fin n) :
    (s.enter c I region).minRegionIndex J ≤ s.minRegionIndex J ∧
      (s.enter c I region).minRegionIndex I ≤ region >>> c.regionSizeLog := by
  change (if _ then Function.update s.minRegionIndex I _ else s.minRegionIndex) J ≤ _ ∧
    (if _ then Function.update s.minRegionIndex I _ else s.minRegionIndex) I ≤ _
  split_ifs with lower
  · rw [Function.update_self]
    refine ⟨?_, le_rfl⟩
    by_cases same : J = I
    · subst same
      rw [Function.update_self]
      exact le_of_lt lower
    · rw [Function.update_of_ne same]
  · exact ⟨le_rfl, not_lt.mp lower⟩

theorem enter_max (region : Nat) (J : Fin n) :
    s.maxRegionIndex J ≤ (s.enter c I region).maxRegionIndex J ∧
      region >>> c.regionSizeLog ≤ (s.enter c I region).maxRegionIndex I := by
  change _ ≤ (if _ then Function.update s.maxRegionIndex I _ else s.maxRegionIndex) J ∧
    _ ≤ (if _ then Function.update s.maxRegionIndex I _ else s.maxRegionIndex) I
  split_ifs with higher
  · rw [Function.update_self]
    refine ⟨?_, le_rfl⟩
    by_cases same : J = I
    · subst same
      rw [Function.update_self]
      exact le_of_lt higher
    · rw [Function.update_of_ne same]
  · exact ⟨le_rfl, not_lt.mp higher⟩

/-- The region is handed out and recorded for its class. -/
theorem Sound.enter {region : Nat} (sound : s.Sound c) (at_ : s.call I = .entering region) :
    ((s.enter c I region).move I .outside).Sound c := by
  have positive : 0 < c.regionSize := regionSize_pos
  have own : IsRegion c region := by
    have fine := sound.fine I
    rwa [at_] at fine
  have least := enter_min (c := c) (s := s) (I := I) region
  have most := enter_max (c := c) (s := s) (I := I) region
  refine ⟨?_, fine_move sound.fine trivial, sound.stash, sound.stash_le, ?_, ?_⟩
  · refine sound.total_keep fun p => ?_
    rw [at_]
    change 0 + load (s.stash.map _ ++ regionSpan c region :: s.given.map _) p =
      load [regionSpan c region] p + load (s.stash.map _ ++ s.given.map _) p
    simp only [load_append, load_cons, load_nil]
    omega
  · intro g member
    rcases List.mem_cons.mp member with rfl | member
    · exact own
    · exact sound.given g member
  · intro g member
    change Function.update s.possibleRegions (region >>> c.regionSizeLog) (wrap 8 (I.val + 1))
      (g.2 >>> c.regionSizeLog) = _ ∧ _
    rcases List.mem_cons.mp member with rfl | member
    · rw [Function.update_self]
      have below := I.isLt
      have classes := c.classes
      exact ⟨wrap_eq (by change I.val + 1 < 256; omega), (least I).2, (most I).2⟩
    · obtain ⟨class_, above, below⟩ := sound.recorded g member
      have apart : (regionSpan c region).Apart (regionSpan c g.2) := by
        have pieces : (s.call I).pieces c = [regionSpan c region] := by
          rw [at_]
          rfl
        have held : regionSpan c g.2 ∈ s.kept c :=
          List.mem_append_right _ (List.mem_map.mpr ⟨g, member, rfl⟩)
        refine apart_of_load (fun p => ?_) (List.mem_singleton_self _) held positive positive
        rw [load_append, ← pieces]
        exact sound.single p
      rw [Function.update_of_ne (index_ne own.aligned (sound.given g member).aligned apart).symm]
      exact ⟨class_, le_trans (least g.1).1 above, le_trans below (most g.1).1⟩

theorem Sound.mapped_of_kept (sound : s.Sound c) {region : Span} (member : region ∈ s.kept c) {p : Nat}
    (inside : region.has p = true) : s.mapped p = true := by
  have total := sound.total p
  have positive := load_pos member inside
  exact of_bit_pos (by omega)

theorem Sound.place_of_mapped (sound : s.Sound c) {p : Nat} (there : s.mapped p = true) :
    (∃ region ∈ s.kept c, region.has p = true) ∨
      ∃ I, ∃ piece ∈ (s.call I).pieces c, piece.has p = true := by
  have total := sound.total p
  rw [there, bit_true] at total
  by_cases kept : 0 < load (s.kept c) p
  · exact Or.inl (exists_of_load_pos kept)
  · have some_ : ∑ I, load ((s.call I).pieces c) p ≠ 0 := by omega
    obtain ⟨I, _, own⟩ := Finset.exists_ne_zero_of_sum_ne_zero some_
    exact Or.inr ⟨I, exists_of_load_pos (Nat.pos_of_ne_zero own)⟩

theorem Sound.kept_apart (sound : s.Sound c) : (s.kept c).Pairwise Span.Apart := by
  have positive : 0 < c.regionSize := regionSize_pos
  refine pairwise_apart_of_load (fun span member => ?_) (fun p => ?_)
  · rcases List.mem_append.mp member with member | member
    · obtain ⟨region, _, rfl⟩ := List.mem_map.mp member
      exact positive
    · obtain ⟨g, _, rfl⟩ := List.mem_map.mp member
      exact positive
  · have total := sound.total p
    have le := bit_le (s.mapped p)
    omega

/-- No part of a call breaks the invariant. -/
theorem Sound.advance (sound : s.Sound c) (maps : s.Maps c mapBase)
    (moves : s.advance c I mapBase = some s') : s'.Sound c := by
  unfold Regions.advance at moves
  split at moves
  case h_1 at_ =>
    cases moves
    exact sound.move trivial (by rw [at_]; rfl)
  case h_2 at_ =>
    cases moves
    exact sound.pop at_
  case h_3 at_ =>
    split_ifs at moves with null <;> cases moves
    · exact sound.move trivial (by rw [at_]; rfl)
    · exact sound.map at_ null maps
  case h_4 base at_ =>
    split_ifs at moves with aligned room <;> cases moves
    · exact sound.stashHalf at_ ((isAligned_iff regionSize_power).mp aligned) room
    · exact sound.placeAligned at_ ((isAligned_iff regionSize_power).mp aligned)
    · exact sound.trimHead at_
  case h_5 base region mapSize at_ =>
    cases moves
    exact sound.trimTail at_
  case h_6 region at_ =>
    split_ifs at moves with null inside <;> cases moves
    · have own := sound.fine I
      rw [at_] at own
      exact absurd null own.some_
    · exact sound.enter at_

theorem initial_sound (start : Initial c s) : s.Sound c where
  total := by
    intro p
    have nothing : s.kept c = [] := by
      unfold kept
      rw [start.stash, start.given]
      rfl
    rw [Finset.sum_eq_zero fun I _ => by rw [start.call I]; rfl, nothing, start.mapped p]
    rfl
  fine := by
    intro I
    rw [start.call I]
    trivial
  stash := by
    rw [start.stash]
    exact fun _ member => absurd member List.not_mem_nil
  stash_le := by
    rw [start.stash]
    exact Nat.zero_le _
  given := by
    rw [start.given]
    exact fun _ member => absurd member List.not_mem_nil
  recorded := by
    rw [start.given]
    exact fun _ member => absurd member List.not_mem_nil

/-- In every run the bookkeeping of the mapped bytes is right. -/
theorem reachable_sound (reached : (regions c).Reachable s) : s.Sound c := by
  refine reached.invariant ?_ ?_
  · exact fun _ start => initial_sound start
  · rintro s s' sound ⟨I, mapBase, maps, moves⟩
    exact sound.advance maps moves

/-- Where addresses have `w` bits and every region an index, a call goes on until it returns. -/
theorem Sound.goes_on (sound : s.Sound c) (range : 2 ^ c.w ≤ c.mmapRangeSize) (I : Fin n)
    (mapBase : Nat) : (s.advance c I mapBase).isSome = true := by
  unfold Regions.advance
  split
  case h_6 region at_ =>
    have own := sound.fine I
    rw [at_] at own
    have positive : 0 < c.regionSize := regionSize_pos
    have inside : region >>> c.regionSizeLog < c.numRegions := by
      unfold RegionConfig.numRegions
      rw [Nat.shiftRight_eq_div_pow, Nat.shiftRight_eq_div_pow, ← c.regionSize_eq]
      have above := own.inside
      calc region / c.regionSize < (region + c.regionSize) / c.regionSize := by
            rw [Nat.add_div_right _ positive]
            exact Nat.lt_succ_self _
        _ ≤ c.mmapRangeSize / c.regionSize := Nat.div_le_div_right (le_trans above range)
    rw [if_neg own.some_, if_pos inside]
    rfl
  all_goals
    repeat split
    all_goals rfl

/-- Every region that is returned or stashed is aligned and mapped, no two of them share a byte, and
none is given to two classes. What is mapped is in one of them, or a call still has it. -/
theorem regions_apart_and_kept (reached : (regions c).Reachable s) :
    (∀ g ∈ s.given, IsRegion c g.2) ∧ (∀ region ∈ s.stash, IsRegion c region) ∧
      s.stash.length ≤ maxStashedRegions ∧ (s.kept c).Pairwise Span.Apart ∧
      (∀ I J region, (I, region) ∈ s.given → (J, region) ∈ s.given → I = J) ∧
      (∀ g ∈ s.given, s.possibleRegions (g.2 >>> c.regionSizeLog) = g.1.val + 1 ∧
        s.minRegionIndex g.1 ≤ g.2 >>> c.regionSizeLog ∧
        g.2 >>> c.regionSizeLog ≤ s.maxRegionIndex g.1) ∧
      (∀ region ∈ s.kept c, ∀ p, region.has p = true → s.mapped p = true) ∧
      (∀ p, s.mapped p = true → (∃ region ∈ s.kept c, region.has p = true) ∨
        ∃ I, ∃ piece ∈ (s.call I).pieces c, piece.has p = true) ∧
      ((∀ I, s.call I = .outside) → ∀ p, s.mapped p = true ↔
        ∃ region ∈ s.kept c, region.has p = true) := by
  have sound := reachable_sound reached
  have mapped : ∀ region ∈ s.kept c, ∀ p, region.has p = true → s.mapped p = true :=
    fun region member p inside => sound.mapped_of_kept member inside
  have somewhere : ∀ p, s.mapped p = true → (∃ region ∈ s.kept c, region.has p = true) ∨
      ∃ I, ∃ piece ∈ (s.call I).pieces c, piece.has p = true :=
    fun p there => sound.place_of_mapped there
  refine ⟨sound.given, sound.stash, sound.stash_le, sound.kept_apart, ?_, sound.recorded, mapped,
    somewhere, ?_⟩
  · intro I J region first second
    have one : s.possibleRegions (region >>> c.regionSizeLog) = I.val + 1 :=
      (sound.recorded _ first).1
    have other : s.possibleRegions (region >>> c.regionSizeLog) = J.val + 1 :=
      (sound.recorded _ second).1
    exact Fin.ext (by omega)
  · intro outside p
    constructor
    · intro there
      rcases somewhere p there with kept | ⟨I, piece, member, inside⟩
      · exact kept
      · rw [outside I] at member
        exact absurd member List.not_mem_nil
    · rintro ⟨region, member, inside⟩
      exact mapped region member p inside

end Regions

end Invariant

section Example

def someConfig : RegionConfig 2 := ⟨32, 18, 2 ^ 32, by decide, by decide⟩

def someRegions : Regions 2 := ⟨[], fun _ => 0, fun _ => someConfig.numRegions, fun _ => 0,
  fun _ => .outside, fun _ => false, []⟩

theorem someRegions_initial : Regions.Initial someConfig someRegions :=
  ⟨rfl, fun _ => rfl, fun _ => rfl, fun _ => rfl, fun _ => rfl, fun _ => rfl, rfl⟩

/-- The second class maps two regions at an aligned address, and one is stashed. -/
theorem regions_apart_and_kept_some : ∃ s : Regions 2, (regions someConfig).Reachable s ∧
    s.given = [(1, 0x80000)] ∧ s.stash = [0xc0000] ∧ (s.kept someConfig).Pairwise Span.Apart := by
  have goes {s s' : Regions 2} (reached : (regions someConfig).Reachable s) (mapBase : Nat)
      (maps : s.Maps someConfig mapBase) (moves : s.advance someConfig 1 mapBase = some s') :
      (regions someConfig).Reachable s' := reached.step (Regions.Step.advance 1 mapBase maps moves)
  have quiet (s : Regions 2) : s.Maps someConfig 0 := fun some_ => absurd rfl some_
  have first := goes (System.Reachable.init someRegions_initial) 0 (quiet _) rfl
  have second := goes first 0 (quiet _) rfl
  have third := goes second 0x80000 (fun _ => ⟨by decide, fun _ _ _ => rfl⟩) rfl
  have fourth := goes third 0 (quiet _) rfl
  have fifth := goes fourth 0 (quiet _) rfl
  have reached := goes fifth 0 (quiet _) rfl
  exact ⟨_, reached, rfl, rfl, (Regions.regions_apart_and_kept reached).2.2.2.1⟩

end Example

end Scudo.Primary.Allocator32
