import Scudo.ErrorInfo.Buffers
import Scudo.Primary.SizeClasses

/-!
`findNearestBlock` over the regions of another process: with any beginnings and sizes the block it
settles on lies in its region.
-/

namespace Scudo.ErrorInfo
open Scudo.Primary
open Scudo.Lib.Checked

/-- What is read of a `RegionInfo`: `RegionBeg` and `MemMapInfo.AllocatedUser`. -/
structure RegionFields where
  regionBeg : Nat
  allocatedUser : Nat
  regionBeg_lt : regionBeg < 2 ^ 64
  allocatedUser_lt : allocatedUser < 2 ^ 64

/-- `RegionInfoArray[ClassId]`. -/
def regionAt (classes : SizeClasses) (regions : Nat → RegionFields) (classId : Nat) :
    Checked RegionFields :=
  if classId < classes.numClasses then .ok (regions classId) else .error (.outside classId)

/-- `sptr` of a 64-bit word, and back. -/
def toSigned (x : Nat) : Int := if x < 2 ^ 63 then x else x - 2 ^ 64

def ofSigned (x : Int) : Nat := (x % 2 ^ 64).toNat

/-- The variables of the loop over the classes. -/
structure Nearest where
  classId : Option Nat
  minDistance : Nat

structure BlockInfo where
  blockBegin : Nat
  blockSize : Nat
  regionBegin : Nat
  regionEnd : Nat
  deriving DecidableEq

section Model

variable (classes : SizeClasses) (regions : Nat → RegionFields) (ptr : Nat)

def nearestStep (nearest : Nearest) (i : Nat) : Checked Nearest :=
  if i = batchClassId then return nearest
  else do
    let region ← regionAt classes regions i
    let regionEnd := wadd 64 region.regionBeg region.allocatedUser
    if regionEnd < region.regionBeg ∨
        wsub 64 regionEnd region.regionBeg < classes.getSizeByClassId i then return nearest
    else
      let regionDistance :=
        if region.regionBeg ≤ ptr then
          if ptr < regionEnd then 0 else wsub 64 ptr regionEnd
        else wsub 64 region.regionBeg ptr
      if regionDistance < nearest.minDistance then return ⟨some i, regionDistance⟩
      else return nearest

/-- The beginning of the region moved by whole blocks, rounded towards it. -/
def firstGuess (regionBegin blockSize : Nat) : Nat :=
  wadd 64 regionBegin (ofSigned ((toSigned (wsub 64 ptr regionBegin)).tdiv (toSigned blockSize) *
    toSigned blockSize))

/-- The two loops that move `BlockBegin`. -/
def raise (regionBegin blockSize fuel blockBegin : Nat) : Checked Nat :=
  loop .exhausted (fun blockBegin => decide (blockBegin < regionBegin))
    (fun blockBegin => .ok (wadd 64 blockBegin blockSize)) fuel blockBegin

def lower (regionEnd blockSize fuel blockBegin : Nat) : Checked Nat :=
  loop .exhausted (fun blockBegin => decide (regionEnd < wadd 64 blockBegin blockSize))
    (fun blockBegin => .ok (wsub 64 blockBegin blockSize)) fuel blockBegin

def findNearestBlock (fuel : Nat) : Checked BlockInfo := do
  let nearest ← (List.range classes.numClasses).foldlM (nearestStep classes regions ptr)
    ⟨none, 2 ^ 64 - 1⟩
  if nearest.minDistance ≤ 8192 then
    match nearest.classId with
    | none => .error .uninitialized
    | some classId =>
      let region ← regionAt classes regions classId
      let regionBegin := region.regionBeg
      let regionEnd := wadd 64 regionBegin region.allocatedUser
      let blockSize := classes.getSizeByClassId classId
      let raised ← raise regionBegin blockSize fuel (firstGuess ptr regionBegin blockSize)
      let blockBegin ← lower regionEnd blockSize fuel raised
      return ⟨blockBegin, blockSize, regionBegin, regionEnd⟩
  else return ⟨0, 0, 0, 0⟩

end Model

/-- A whole block in the region. -/
structure BlockInfo.Inside (b : BlockInfo) : Prop where
  positive : 0 < b.blockSize
  above : b.regionBegin ≤ b.blockBegin
  below : b.blockBegin + b.blockSize ≤ b.regionEnd
  region : b.regionEnd < 2 ^ 64

variable {classes : SizeClasses} {regions : Nat → RegionFields} {ptr : Nat}

/-- A class that the loop has chosen has a region that holds a block, and no region ends further
away than that. -/
structure Near (classes : SizeClasses) (regions : Nat → RegionFields) (ptr distance i : Nat) :
    Prop where
  inside : i < classes.numClasses
  notBatch : i ≠ batchClassId
  fits : (regions i).regionBeg + (regions i).allocatedUser < 2 ^ 64
  holds : classes.getSizeByClassId i ≤ (regions i).allocatedUser
  above : (regions i).regionBeg ≤ ptr + distance
  below : ptr ≤ (regions i).regionBeg + (regions i).allocatedUser + distance

def Nearest.Sound (classes : SizeClasses) (regions : Nat → RegionFields) (ptr : Nat)
    (nearest : Nearest) : Prop :=
  match nearest.classId with
  | none => nearest.minDistance = 2 ^ 64 - 1
  | some i => Near classes regions ptr nearest.minDistance i

theorem regionAt_ends {i : Nat} (inside : i < classes.numClasses) :
    Ends (regionAt classes regions i) fun region => region = regions i := by
  unfold regionAt
  rw [if_pos inside]
  exact Ends.ok rfl

theorem nearestStep_ends (bound : ptr < 2 ^ 64) {nearest : Nearest}
    (sound : nearest.Sound classes regions ptr) {i : Nat} (inside : i < classes.numClasses) :
    Ends (nearestStep classes regions ptr nearest i) (Nearest.Sound classes regions ptr) := by
  have beginBound := (regions i).regionBeg_lt
  have sizeBound := (regions i).allocatedUser_lt
  unfold nearestStep
  apply Ends.ite (fun _ => Ends.pure sound)
  intro notBatch
  apply (regionAt_ends inside).bind
  rintro _ rfl
  apply Ends.ite (fun _ => Ends.pure sound)
  intro accepted
  rw [not_or, Nat.not_lt, Nat.not_lt] at accepted
  obtain ⟨ordered, holds⟩ := accepted
  have fits : (regions i).regionBeg + (regions i).allocatedUser < 2 ^ 64 := by
    rw [wadd_ite beginBound sizeBound] at ordered
    split_ifs at ordered with fits
    · exact fits
    · omega
  rw [wadd_eq fits] at holds ⊢
  rw [wsub_eq fits (Nat.le_add_right _ _), Nat.add_sub_cancel_left] at holds
  apply Ends.ite
  · intro _
    apply Ends.pure
    refine ⟨inside, notBatch, fits, holds, ?_, ?_⟩
    · dsimp only
      split_ifs with before within
      · omega
      · omega
      · rw [wsub_eq beginBound (by omega)]
        omega
    · dsimp only
      split_ifs with before within
      · omega
      · rw [wsub_eq bound (by omega)]
        omega
      · omega
  · intro _
    exact Ends.pure sound

/-- Dividing and multiplying a signed distance moves it by less than a block towards 0. -/
theorem firstGuess_eq {regionBegin blockSize : Nat}
    (small : blockSize < 2 ^ 63) (beginBound : regionBegin < 2 ^ 64) (ptrBound : ptr < 2 ^ 63) :
    (regionBegin ≤ ptr → firstGuess ptr regionBegin blockSize =
      regionBegin + (ptr - regionBegin) / blockSize * blockSize) ∧
    (ptr < regionBegin → regionBegin - ptr < 2 ^ 63 →
      firstGuess ptr regionBegin blockSize + (regionBegin - ptr) / blockSize * blockSize =
        regionBegin) := by
  have size : toSigned blockSize = blockSize := if_pos small
  constructor
  · intro le
    have quotient := Nat.div_mul_le_self (ptr - regionBegin) blockSize
    have distance : toSigned (wsub 64 ptr regionBegin) = (ptr - regionBegin : Nat) := by
      rw [wsub_eq (by omega) le]
      exact if_pos (by omega)
    have word : ofSigned ((toSigned (wsub 64 ptr regionBegin)).tdiv (toSigned blockSize) *
        toSigned blockSize) = (ptr - regionBegin) / blockSize * blockSize := by
      rw [distance, size, ← Int.ofNat_tdiv, ← Int.natCast_mul]
      unfold ofSigned
      omega
    unfold firstGuess
    rw [word, wadd_eq (by omega)]
  · intro less near
    have quotient := Nat.div_mul_le_self (regionBegin - ptr) blockSize
    have distance : toSigned (wsub 64 ptr regionBegin) = -((regionBegin - ptr : Nat) : Int) := by
      rw [wsub_underflow (by omega) less]
      unfold toSigned
      rw [if_neg (by omega)]
      omega
    have word : ofSigned ((toSigned (wsub 64 ptr regionBegin)).tdiv (toSigned blockSize) *
        toSigned blockSize) = (2 ^ 64 - (regionBegin - ptr) / blockSize * blockSize) % 2 ^ 64 := by
      rw [distance, size, Int.neg_tdiv, ← Int.ofNat_tdiv, Int.neg_mul, ← Int.natCast_mul]
      unfold ofSigned
      omega
    unfold firstGuess wadd wrap
    rw [word]
    omega

section Loops

variable {regionBegin regionEnd blockSize fuel blockBegin : Nat}

/-- From a whole number of blocks before the region the first loop stops at its beginning. -/
theorem raise_ends (positive : 0 < blockSize) (beginBound : regionBegin < 2 ^ 64)
    (start : (∃ k, blockBegin = regionBegin + k * blockSize ∧ blockBegin ≤ ptr) ∨
      ∃ k, blockBegin + k * blockSize = regionBegin)
    (enough : regionBegin - blockBegin < fuel) :
    Ends (raise regionBegin blockSize fuel blockBegin) fun raised =>
      ∃ k, raised = regionBegin + k * blockSize ∧ (raised ≤ ptr ∨ raised = regionBegin) := by
  unfold raise
  refine (Ends.loop (fun now => (∃ k, now = regionBegin + k * blockSize ∧ now ≤ ptr) ∨
    ∃ k, now + k * blockSize = regionBegin) (fun now => regionBegin - now) ?_ start enough).mono ?_
  rotate_left
  · intro last holds
    obtain ⟨inv, done⟩ := holds
    rw [decide_eq_false_iff_not, Nat.not_lt] at done
    rcases inv with ⟨k, place, near⟩ | ⟨k, place⟩
    · exact ⟨k, place, Or.inl near⟩
    · have same : last = regionBegin := by omega
      exact ⟨0, by omega, Or.inr same⟩
  · intro now inv more
    rw [decide_eq_true_iff] at more
    rcases inv with ⟨k, place, _⟩ | ⟨k, place⟩
    · omega
    · obtain ⟨j, rfl⟩ : ∃ j, k = j + 1 := by
        refine ⟨k - 1, (Nat.sub_add_cancel ?_).symm⟩
        by_contra zero
        rw [Nat.eq_zero_of_not_pos zero, Nat.zero_mul] at place
        omega
      rw [Nat.add_mul, Nat.one_mul] at place
      rw [wadd_eq (by omega)]
      exact Ends.ok ⟨Or.inr ⟨j, by omega⟩, by omega⟩

/-- From a whole number of blocks after the beginning of a region that holds one the second loop
stops at a block of the region. -/
theorem lower_ends (positive : 0 < blockSize) (small : blockSize ≤ 2 ^ 20)
    (holds : regionBegin + blockSize ≤ regionEnd)
    (start : ∃ k, blockBegin = regionBegin + k * blockSize ∧ blockBegin < 2 ^ 63)
    (enough : blockBegin + blockSize - regionEnd < fuel) :
    Ends (lower regionEnd blockSize fuel blockBegin) fun last =>
      regionBegin ≤ last ∧ last + blockSize ≤ regionEnd := by
  unfold lower
  refine (Ends.loop (fun now => ∃ k, now = regionBegin + k * blockSize ∧ now < 2 ^ 63)
    (fun now => now + blockSize - regionEnd) ?_ start enough).mono ?_
  rotate_left
  · intro last holds
    obtain ⟨⟨k, place, near⟩, done⟩ := holds
    rw [decide_eq_false_iff_not, Nat.not_lt, wadd_eq (by omega)] at done
    exact ⟨by omega, done⟩
  · intro now inv more
    obtain ⟨k, place, near⟩ := inv
    rw [decide_eq_true_iff, wadd_eq (by omega)] at more
    obtain ⟨j, rfl⟩ : ∃ j, k = j + 1 := by
      refine ⟨k - 1, (Nat.sub_add_cancel ?_).symm⟩
      by_contra zero
      rw [Nat.eq_zero_of_not_pos zero, Nat.zero_mul] at place
      omega
    rw [Nat.add_mul, Nat.one_mul] at place
    rw [wsub_eq (by omega) (by omega)]
    exact Ends.ok ⟨⟨j, by omega, by omega⟩, by omega⟩

end Loops

/-- The iterations that the loops may need at most. -/
def blockSteps : Nat := 2 ^ 21

theorem findNearestBlock_ends (bound : ptr < 2 ^ 56) {fuel : Nat} (enough : blockSteps ≤ fuel) :
    Ends (findNearestBlock classes regions ptr fuel) fun b => b = ⟨0, 0, 0, 0⟩ ∨ b.Inside := by
  unfold blockSteps at enough
  unfold findNearestBlock
  have nearest : Ends ((List.range classes.numClasses).foldlM (nearestStep classes regions ptr)
      ⟨none, 2 ^ 64 - 1⟩) (Nearest.Sound classes regions ptr) := by
    apply Ends.foldlM
    · exact rfl
    · intro nearest sound i member
      exact nearestStep_ends (by omega) sound (List.mem_range.mp member)
  apply nearest.bind
  intro nearest sound
  refine Ends.ite ?_ fun _ => Ends.pure (Or.inl rfl)
  intro close
  unfold Nearest.Sound at sound
  cases chosen : nearest.classId with
  | none =>
    rw [chosen] at sound
    dsimp only at sound
    omega
  | some i =>
    rw [chosen] at sound
    dsimp only at sound
    have positive := classes.positive i sound.inside sound.notBatch
    have small := classes.atMost i sound.inside sound.notBatch
    have fits := sound.fits
    have holds := sound.holds
    have above := sound.above
    have below := sound.below
    obtain ⟨after, before⟩ := firstGuess_eq (by omega : classes.getSizeByClassId i < 2 ^ 63)
      (regions i).regionBeg_lt (by omega : ptr < 2 ^ 63)
    dsimp only
    apply (regionAt_ends sound.inside).bind
    rintro _ rfl
    rw [wadd_eq fits]
    have start : ((∃ k, firstGuess ptr (regions i).regionBeg (classes.getSizeByClassId i) =
        (regions i).regionBeg + k * classes.getSizeByClassId i ∧
          firstGuess ptr (regions i).regionBeg (classes.getSizeByClassId i) ≤ ptr) ∨
        ∃ k, firstGuess ptr (regions i).regionBeg (classes.getSizeByClassId i) +
          k * classes.getSizeByClassId i = (regions i).regionBeg) ∧
        (regions i).regionBeg -
          firstGuess ptr (regions i).regionBeg (classes.getSizeByClassId i) < fuel := by
      rcases Nat.lt_or_ge ptr (regions i).regionBeg with less | le
      · have place := before less (by omega)
        have quotient := Nat.div_mul_le_self ((regions i).regionBeg - ptr)
          (classes.getSizeByClassId i)
        exact ⟨Or.inr ⟨_, place⟩, by omega⟩
      · have place := after le
        have quotient := Nat.div_mul_le_self (ptr - (regions i).regionBeg)
          (classes.getSizeByClassId i)
        exact ⟨Or.inl ⟨_, place, by omega⟩, by omega⟩
    apply (raise_ends positive (by omega) start.1 start.2).bind
    rintro raised ⟨k, place, near⟩
    have whole : (regions i).regionBeg + classes.getSizeByClassId i ≤
        (regions i).regionBeg + (regions i).allocatedUser := Nat.add_le_add_left holds _
    apply (lower_ends positive small whole ⟨k, place, by omega⟩ (by omega)).bind
    rintro last ⟨least, most⟩
    exact Ends.pure (Or.inr ⟨positive, least, most, fits⟩)

section Inside

variable {classId i : Nat} {nearest : Nearest}

/-- The address lies in the region of this class, a whole number of blocks, and neither in another one
nor just after it. -/
structure Owns (classes : SizeClasses) (regions : Nat → RegionFields) (ptr classId : Nat) : Prop where
  inside : classId < classes.numClasses
  notBatch : classId ≠ batchClassId
  whole : classes.getSizeByClassId classId ∣ (regions classId).allocatedUser
  above : (regions classId).regionBeg ≤ ptr
  below : ptr < (regions classId).regionBeg + (regions classId).allocatedUser
  fits : (regions classId).regionBeg + (regions classId).allocatedUser < 2 ^ 63
  others : ∀ i < classes.numClasses, i ≠ batchClassId → i ≠ classId →
    ptr < (regions i).regionBeg ∨ (regions i).regionBeg + (regions i).allocatedUser < ptr

/-- No region was found that has the address. -/
def Nearest.Away (nearest : Nearest) : Prop := 0 < nearest.minDistance

theorem Nearest.away_start : Nearest.Away ⟨none, 2 ^ 64 - 1⟩ := by
  have positive : 1 < 2 ^ 64 := Nat.one_lt_two_pow (by decide)
  unfold Nearest.Away
  dsimp only
  omega

/-- A distance of 0 is never improved. -/
theorem nearestStep_zero (inside : i < classes.numClasses) (zero : nearest.minDistance = 0) :
    nearestStep classes regions ptr nearest i = .ok nearest := by
  unfold nearestStep regionAt
  rw [if_pos inside, zero]
  dsimp only [bind, Except.bind]
  split_ifs <;> first | rfl | omega

/-- Another region is at some distance. -/
theorem nearestStep_other (owns : Owns classes regions ptr classId) (inside : i < classes.numClasses)
    (other : i ≠ classId) (away : nearest.Away) :
    Ends (nearestStep classes regions ptr nearest i) Nearest.Away := by
  have beginBound := (regions i).regionBeg_lt
  have sizeBound := (regions i).allocatedUser_lt
  have bound : ptr < 2 ^ 63 := owns.below.trans owns.fits
  unfold nearestStep
  apply Ends.ite (fun _ => Ends.pure away)
  intro notBatch
  have outside := owns.others i inside notBatch other
  apply (regionAt_ends inside).bind
  rintro _ rfl
  apply Ends.ite (fun _ => Ends.pure away)
  intro accepted
  rw [not_or, Nat.not_lt, Nat.not_lt] at accepted
  have fits : (regions i).regionBeg + (regions i).allocatedUser < 2 ^ 64 := by
    by_contra wraps
    have ordered := accepted.1
    rw [wadd_ite beginBound sizeBound, if_neg wraps] at ordered
    omega
  rw [wadd_eq fits]
  apply Ends.ite _ fun _ => Ends.pure away
  intro _
  apply Ends.pure
  unfold Nearest.Away
  dsimp only
  split_ifs with before within
  · omega
  · rw [wsub_eq (by omega) (by omega)]
    omega
  · rw [wsub_eq beginBound (by omega)]
    omega

theorem nearestStep_own (owns : Owns classes regions ptr classId) (away : nearest.Away) :
    nearestStep classes regions ptr nearest classId = .ok ⟨some classId, 0⟩ := by
  obtain ⟨inside, notBatch, whole, above, below, fits, -⟩ := owns
  have least : classes.getSizeByClassId classId ≤ (regions classId).allocatedUser :=
    Nat.le_of_dvd (by omega) whole
  have distance : wsub 64 ((regions classId).regionBeg + (regions classId).allocatedUser)
      (regions classId).regionBeg = (regions classId).allocatedUser := by
    rw [wsub_eq (by omega) (by omega)]
    omega
  unfold nearestStep regionAt
  rw [if_neg notBatch, if_pos inside]
  dsimp only [bind, Except.bind]
  rw [wadd_eq (by omega), distance, if_neg (by omega), if_pos above, if_pos below]
  exact if_pos away

theorem foldlM_nearestStep (owns : Owns classes regions ptr classId) {list : List Nat}
    (inside : ∀ i ∈ list, i < classes.numClasses) (member : classId ∈ list)
    (away : nearest.Away) : list.foldlM (nearestStep classes regions ptr) nearest =
      .ok ⟨some classId, 0⟩ := by
  have stays (list : List Nat) (inside : ∀ i ∈ list, i < classes.numClasses) :
      list.foldlM (nearestStep classes regions ptr) ⟨some classId, 0⟩ = .ok ⟨some classId, 0⟩ := by
    induction list with
    | nil => rfl
    | cons first rest ih =>
      rw [List.foldlM_cons, nearestStep_zero (inside first List.mem_cons_self) rfl]
      exact ih fun i member => inside i (List.mem_cons_of_mem _ member)
  induction list generalizing nearest with
  | nil => cases member
  | cons first rest ih =>
    have small : ∀ i ∈ rest, i < classes.numClasses :=
      fun i member => inside i (List.mem_cons_of_mem _ member)
    rw [List.foldlM_cons]
    by_cases own : first = classId
    · rw [own, nearestStep_own owns away]
      exact stays rest small
    · obtain ⟨next, eq, away⟩ := nearestStep_other owns (inside first List.mem_cons_self) own away
      rw [eq]
      exact ih small (List.mem_of_ne_of_mem (Ne.symm own) member) away

theorem raise_stop {regionBegin blockSize blockBegin : Nat} (fuel : Nat) (above : regionBegin ≤ blockBegin) :
    raise regionBegin blockSize (fuel + 1) blockBegin = .ok blockBegin := by
  apply loop_stop
  exact decide_eq_false (Nat.not_lt.mpr above)

theorem lower_stop {regionEnd blockSize blockBegin : Nat} (fuel : Nat)
    (below : wadd 64 blockBegin blockSize ≤ regionEnd) :
    lower regionEnd blockSize (fuel + 1) blockBegin = .ok blockBegin := by
  apply loop_stop
  exact decide_eq_false (Nat.not_lt.mpr below)

/-- The block of the class that holds the address. -/
theorem findNearestBlock_inside (owns : Owns classes regions ptr classId) (fuel : Nat) :
    findNearestBlock classes regions ptr (fuel + 1) = .ok
      ⟨(regions classId).regionBeg + (ptr - (regions classId).regionBeg) /
          classes.getSizeByClassId classId * classes.getSizeByClassId classId,
        classes.getSizeByClassId classId, (regions classId).regionBeg,
        (regions classId).regionBeg + (regions classId).allocatedUser⟩ := by
  have positive := classes.positive classId owns.inside owns.notBatch
  have small := classes.atMost classId owns.inside owns.notBatch
  have found := foldlM_nearestStep owns (fun i => List.mem_range.mp) (List.mem_range.mpr owns.inside)
    Nearest.away_start
  obtain ⟨inside, notBatch, ⟨blocks, whole⟩, above, below, fits, -⟩ := owns
  obtain ⟨after, -⟩ := firstGuess_eq (by omega : classes.getSizeByClassId classId < 2 ^ 63)
    (by omega : (regions classId).regionBeg < 2 ^ 64) (by omega : ptr < 2 ^ 63)
  have guess := after above
  have quotient : (ptr - (regions classId).regionBeg) / classes.getSizeByClassId classId < blocks := by
    rw [Nat.div_lt_iff_lt_mul positive, Nat.mul_comm, ← whole]
    omega
  have room := Nat.mul_le_mul_right (classes.getSizeByClassId classId) quotient
  rw [Nat.succ_mul, Nat.mul_comm blocks, ← whole] at room
  have region : regionAt classes regions classId = .ok (regions classId) := if_pos inside
  have raised := @raise_stop (regions classId).regionBeg (classes.getSizeByClassId classId)
    (firstGuess ptr (regions classId).regionBeg (classes.getSizeByClassId classId)) fuel (by omega)
  have lowered := @lower_stop ((regions classId).regionBeg + (regions classId).allocatedUser)
    (classes.getSizeByClassId classId)
    (firstGuess ptr (regions classId).regionBeg (classes.getSizeByClassId classId)) fuel (by
      rw [guess, wadd_eq (by omega)]
      omega)
  have regionEnd : wadd 64 (regions classId).regionBeg (regions classId).allocatedUser =
      (regions classId).regionBeg + (regions classId).allocatedUser := wadd_eq (by omega)
  rw [guess] at raised lowered
  unfold findNearestBlock
  rw [found, ok_bind, if_pos (Nat.zero_le _)]
  dsimp only
  rw [region, ok_bind, regionEnd, guess, raised, ok_bind, lowered, ok_bind]
  rfl

end Inside

end Scudo.ErrorInfo
