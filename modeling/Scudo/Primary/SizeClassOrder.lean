import Scudo.Lib.SignificantBits
import Scudo.Primary.PageMap
import Scudo.Primary.SizeClasses

/-!
`getClassIdBySize` of a `FixedSizeClassMap` and the order of its classes: the sizes ascend, and the
class of a size is the first one that has room for it.
-/

namespace Scudo.Primary
open Scudo.Lib

/-- What a configuration has to obey. -/
structure SizeClassConfig.Ordered (config : SizeClassConfig) : Prop where
  min_le : config.minSizeLog ≤ config.midSizeLog
  mid_le : config.midSizeLog ≤ config.maxSizeLog
  bits_le : config.numBits - 1 ≤ config.midSizeLog
  bits_pos : 1 ≤ config.numBits

def scaledLog2 (size zeroLog logBits : Nat) : Nat :=
  let l := getMostSignificantSetBitIndex size
  let lBits := (size >>> (l - logBits)) - (1 <<< logBits)
  let hBits := (l - zeroLog) <<< logBits
  lBits + hBits

namespace FixedSizeClassMap

variable (config : SizeClassConfig)

def minSize : Nat := 1 <<< config.minSizeLog

def maxSize : Nat := (1 <<< config.maxSizeLog) + config.sizeDelta

def largestClassId : Nat := numClasses config - 1

def getClassIdBySize (size : Nat) : Nat :=
  if size ≤ config.sizeDelta + (1 <<< config.minSizeLog) then 1
  else
    let size := size - config.sizeDelta
    if size ≤ midSize config then (size + minSize config - 1) >>> config.minSizeLog
    else midClass config + 1 + scaledLog2 (size - 1) config.midSizeLog (s config)

section Order

variable {config} {classId size : Nat}

theorem midSize_eq : midSize config = 2 ^ config.midSizeLog := Nat.one_shiftLeft _

theorem midSize_split (ordered : config.Ordered) :
    midSize config = midClass config * 2 ^ config.minSizeLog := by
  have divides : 2 ^ config.minSizeLog ∣ midSize config := by
    rw [midSize_eq]
    exact Nat.pow_dvd_pow 2 ordered.min_le
  unfold midClass
  rw [Nat.one_shiftLeft, Nat.div_mul_cancel divides]

theorem midClass_pos (ordered : config.Ordered) : 0 < midClass config := by
  have split := midSize_split ordered
  have positive := Nat.two_pow_pos config.midSizeLog
  rw [midSize_eq] at split
  rw [split] at positive
  exact Nat.pos_of_mul_pos_right positive

/-- Above the middle class the sizes have `s + 1` significant bits. -/
theorem getSizeByClassId_large (ordered : config.Ordered) (above : midClass config ≤ classId) :
    getSizeByClassId config classId = 2 ^ (config.midSizeLog - s config) *
      SignificantBits.value (s config) (classId - midClass config) + config.sizeDelta := by
  have bits : s config ≤ config.midSizeLog := ordered.bits_le
  unfold getSizeByClassId SignificantBits.value
  split_ifs with middle
  · obtain rfl : classId = midClass config := by omega
    rw [Nat.sub_self, Nat.zero_mod, Nat.zero_div, Nat.pow_zero, Nat.mul_one, Nat.add_zero,
      ← Nat.pow_add, Nat.sub_add_cancel bits, ← midSize_eq, midSize_split ordered,
      Nat.shiftLeft_eq]
  · have unit : (midSize config <<< ((classId - midClass config) >>> s config)) =
        2 ^ (config.midSizeLog - s config) * 2 ^ ((classId - midClass config) / 2 ^ s config) *
          2 ^ s config := by
      have split : 2 ^ config.midSizeLog = 2 ^ (config.midSizeLog - s config) * 2 ^ s config := by
        rw [← Nat.pow_add, Nat.sub_add_cancel bits]
      rw [midSize_eq, Nat.shiftLeft_eq, Nat.shiftRight_eq_div_pow, split, Nat.mul_right_comm]
    have mask : (classId - midClass config) &&& m config =
        (classId - midClass config) % 2 ^ s config := by
      unfold m
      rw [Nat.one_shiftLeft, Nat.and_two_pow_sub_one_eq_mod]
    dsimp only
    rw [unit, mask, Nat.shiftRight_eq_div_pow, Nat.mul_div_cancel _ (Nat.two_pow_pos _)]
    ring

theorem getSizeByClassId_small (below : classId ≤ midClass config) :
    getSizeByClassId config classId = classId * 2 ^ config.minSizeLog + config.sizeDelta := by
  unfold getSizeByClassId
  rw [if_pos below, Nat.shiftLeft_eq]

theorem getSizeByClassId_strictMono (ordered : config.Ordered) :
    StrictMono (getSizeByClassId config) := by
  apply strictMono_nat_of_lt_succ
  intro classId
  by_cases below : classId + 1 ≤ midClass config
  · have unit := Nat.two_pow_pos config.minSizeLog
    rw [getSizeByClassId_small below, getSizeByClassId_small (by omega), Nat.add_mul]
    omega
  · have next : classId + 1 - midClass config = classId - midClass config + 1 := by omega
    have less := SignificantBits.value_strictMono (s config)
      (Nat.lt_add_one (classId - midClass config))
    rw [getSizeByClassId_large ordered (by omega), getSizeByClassId_large ordered (by omega), next]
    have scaled := Nat.mul_lt_mul_of_pos_left less (Nat.two_pow_pos (config.midSizeLog - s config))
    omega

/-- `scaledLog2` tells the position among the numbers with `s + 1` significant bits. -/
theorem scaledLog2_eq {x : Nat} (ordered : config.Ordered) (large : 2 ^ config.midSizeLog ≤ x) :
    scaledLog2 x config.midSizeLog (s config) =
      SignificantBits.position (s config) (x / 2 ^ (config.midSizeLog - s config)) := by
  have bits : s config ≤ config.midSizeLog := ordered.bits_le
  have some_ : x ≠ 0 := by
    have positive := Nat.two_pow_pos config.midSizeLog
    omega
  have le : config.midSizeLog ≤ Nat.log2 x := (Nat.le_log2 some_).mpr large
  have log : Nat.log2 (x / 2 ^ (config.midSizeLog - s config)) =
      Nat.log2 x - (config.midSizeLog - s config) := by
    rw [Nat.log2_eq_log_two, Nat.log2_eq_log_two, Nat.log_div_base_pow]
  have exponent : Nat.log2 x - (config.midSizeLog - s config) - s config =
      Nat.log2 x - config.midSizeLog := by omega
  have leading : x / 2 ^ (config.midSizeLog - s config) / 2 ^ (Nat.log2 x - config.midSizeLog) =
      x >>> (Nat.log2 x - s config) := by
    rw [Nat.div_div_eq_div_mul, ← Nat.pow_add, Nat.shiftRight_eq_div_pow]
    congr 2
    omega
  unfold scaledLog2 SignificantBits.position getMostSignificantSetBitIndex
  dsimp only
  rw [log, exponent, leading, Nat.one_shiftLeft, Nat.shiftLeft_eq, Nat.add_comm]

/-- A class has room for a size if and only if it is not below the class of that size. -/
theorem getClassIdBySize_le_iff (ordered : config.Ordered) (positive : 1 ≤ classId) :
    getClassIdBySize config size ≤ classId ↔ size ≤ getSizeByClassId config classId := by
  have mid := midClass_pos ordered
  have mono := (getSizeByClassId_strictMono ordered).monotone
  have split := midSize_split ordered
  have unit := Nat.two_pow_pos config.minSizeLog
  unfold getClassIdBySize
  rw [Nat.one_shiftLeft]
  dsimp only
  split_ifs with first small
  · have one : getSizeByClassId config 1 = _ := getSizeByClassId_small mid
    have least := mono positive
    constructor
    · intro _
      omega
    · exact fun _ => positive
  · -- The steps are as large as the smallest size.
    have rounded : (size - config.sizeDelta + minSize config - 1) >>> config.minSizeLog ≤ classId ↔
        size - config.sizeDelta ≤ classId * 2 ^ config.minSizeLog := by
      unfold minSize
      rw [Nat.one_shiftLeft, Nat.shiftRight_eq_div_pow, ← Nat.lt_succ_iff,
        Nat.div_lt_iff_lt_mul unit, Nat.succ_mul]
      omega
    rw [rounded]
    by_cases below : classId ≤ midClass config
    · rw [getSizeByClassId_small below]
      omega
    · have atMid : getSizeByClassId config (midClass config) = _ := getSizeByClassId_small le_rfl
      have later := mono (Nat.le_of_not_le below)
      have product := Nat.mul_le_mul_right (2 ^ config.minSizeLog) (Nat.le_of_not_le below)
      constructor
      · intro _
        omega
      · intro _
        omega
  · have large : 2 ^ config.midSizeLog ≤ size - config.sizeDelta - 1 := by
      rw [← midSize_eq]
      omega
    have scale := Nat.two_pow_pos (config.midSizeLog - s config)
    have fits : 2 ^ s config ≤ (size - config.sizeDelta - 1) / 2 ^ (config.midSizeLog - s config) := by
      have bits : s config ≤ config.midSizeLog := ordered.bits_le
      rw [Nat.le_div_iff_mul_le scale, ← Nat.pow_add, Nat.add_sub_cancel' bits]
      exact large
    have adjoint := SignificantBits.value_le_iff (k := classId - midClass config) fits
    rw [scaledLog2_eq ordered large]
    by_cases above : midClass config ≤ classId
    · rw [Nat.le_div_iff_mul_le scale, Nat.mul_comm] at adjoint
      rw [getSizeByClassId_large ordered above]
      omega
    · have earlier := mono (Nat.le_of_not_le above)
      have atMid : getSizeByClassId config (midClass config) = _ := getSizeByClassId_small le_rfl
      constructor
      · intro _
        omega
      · intro _
        omega

theorem largestClassId_eq : largestClassId config =
    midClass config + (config.maxSizeLog - config.midSizeLog) * 2 ^ s config := by
  unfold largestClassId numClasses
  rw [Nat.shiftLeft_eq, Nat.add_sub_cancel]

/-- The largest class has the largest size. -/
theorem getSizeByClassId_largest (ordered : config.Ordered) :
    getSizeByClassId config (largestClassId config) = maxSize config := by
  have bits : s config ≤ config.midSizeLog := ordered.bits_le
  have le := ordered.mid_le
  rw [getSizeByClassId_large ordered (by rw [largestClassId_eq]; exact Nat.le_add_right _ _),
    largestClassId_eq, Nat.add_sub_cancel_left, SignificantBits.value_multiple, ← Nat.pow_add]
  unfold maxSize
  rw [Nat.one_shiftLeft]
  congr 2
  omega

theorem getClassIdBySize_pos (ordered : config.Ordered) : 1 ≤ getClassIdBySize config size := by
  unfold getClassIdBySize
  dsimp only
  split_ifs with first small
  · exact le_refl 1
  · have unit := Nat.two_pow_pos config.minSizeLog
    rw [Nat.one_shiftLeft] at first
    unfold minSize
    rw [Nat.one_shiftLeft, Nat.shiftRight_eq_div_pow, Nat.le_div_iff_mul_le unit]
    omega
  · have mid := midClass_pos ordered
    omega

end Order

section Words

variable (w : Nat)

/-- `scaledLog2` in words of `w` bits. -/
def scaledLog2Word (size zeroLog logBits : Nat) : Nat :=
  let l := getMostSignificantSetBitIndex size
  let lBits := wsub w (size >>> wsub w l logBits) (1 <<< logBits)
  let hBits := wrap w (wsub w l zeroLog <<< logBits)
  wadd w lBits hBits

def getSizeByClassIdWord (classId : Nat) : Nat :=
  if classId ≤ midClass config then
    wadd w (wrap w (classId <<< config.minSizeLog)) config.sizeDelta
  else
    let classId := wsub w classId (midClass config)
    let t := wrap w (midSize config <<< (classId >>> s config))
    wadd w (wadd w t (wrap w ((t >>> s config) * (classId &&& m config)))) config.sizeDelta

def getClassIdBySizeWord (size : Nat) : Nat :=
  if size ≤ wadd w config.sizeDelta (1 <<< config.minSizeLog) then 1
  else
    let size := wsub w size config.sizeDelta
    if size ≤ midSize config then wsub w (wadd w size (minSize config)) 1 >>> config.minSizeLog
    else wadd w (wadd w (midClass config) 1)
      (scaledLog2Word w (wsub w size 1) config.midSizeLog (s config))

/-- The constants fit their types, and there are not too many classes. The shift of
`getClassIdBySize` by `MinSizeLog` is one of an `int`. -/
structure Fits : Prop where
  word : 32 ≤ w
  shift : config.maxSizeLog < w
  int : config.minSizeLog < 31
  maxSize_lt : maxSize config < 2 ^ w
  classes : numClasses config ≤ 256

variable {config w} {classId size : Nat}

theorem Fits.largest_lt (fits : Fits config w) : largestClassId config < 2 ^ w := by
  have classes := fits.classes
  have words : 2 ^ 32 ≤ 2 ^ w := Nat.pow_le_pow_right (by decide) fits.word
  unfold largestClassId
  omega

theorem Fits.half (ordered : config.Ordered) (fits : Fits config w) :
    2 ^ config.midSizeLog + 2 ^ config.minSizeLog < 2 ^ w := by
  have mid := ordered.mid_le
  have shift := fits.shift
  have word := fits.word
  have small : 2 ^ config.minSizeLog < 2 ^ (w - 1) :=
    Nat.pow_lt_pow_right (by decide) (by have int := fits.int; omega)
  have half : 2 ^ config.midSizeLog ≤ 2 ^ (w - 1) := Nat.pow_le_pow_right (by decide) (by omega)
  have halves : 2 ^ w = 2 * 2 ^ (w - 1) := by
    rw [← Nat.pow_succ', Nat.succ_eq_add_one, Nat.sub_add_cancel (by omega)]
  omega

theorem scaledLog2Word_eq {zeroLog logBits : Nat} (bound : size < 2 ^ w)
    (bits : logBits ≤ Nat.log2 size) (zero : zeroLog ≤ Nat.log2 size)
    (leading : 1 <<< logBits ≤ size >>> (Nat.log2 size - logBits))
    (total : scaledLog2 size zeroLog logBits < 2 ^ w) :
    scaledLog2Word w size zeroLog logBits = scaledLog2 size zeroLog logBits := by
  have log : Nat.log2 size < 2 ^ w := lt_of_le_of_lt (Nat.log2_le_self size) bound
  have shifted : size >>> (Nat.log2 size - logBits) < 2 ^ w :=
    lt_of_le_of_lt (Nat.shiftRight_le _ _) bound
  unfold scaledLog2 getMostSignificantSetBitIndex at total
  unfold scaledLog2 scaledLog2Word getMostSignificantSetBitIndex
  dsimp only at total ⊢
  rw [wsub_eq log bits, wsub_eq log zero, wsub_eq shifted leading, wrap_eq (by omega), wadd_eq total]

theorem getSizeByClassIdWord_eq (ordered : config.Ordered) (fits : Fits config w)
    (le : classId ≤ largestClassId config) :
    getSizeByClassIdWord config w classId = getSizeByClassId config classId := by
  have top : getSizeByClassId config classId < 2 ^ w := by
    have mono := (getSizeByClassId_strictMono ordered).monotone le
    rw [getSizeByClassId_largest ordered] at mono
    exact lt_of_le_of_lt mono fits.maxSize_lt
  have few : classId < 2 ^ w := lt_of_le_of_lt le fits.largest_lt
  unfold getSizeByClassIdWord
  unfold getSizeByClassId at top ⊢
  split_ifs at top ⊢ with small
  · rw [wrap_eq (by omega), wadd_eq top]
  · dsimp only at top ⊢
    rw [wsub_eq few (by omega)]
    generalize classId - midClass config = position at top ⊢
    have t : midSize config <<< (position >>> s config) < 2 ^ w := by omega
    rw [wrap_eq t]
    generalize midSize config <<< (position >>> s config) = t at top ⊢
    have sum : wadd w t ((t >>> s config) * (position &&& m config)) =
        t + (t >>> s config) * (position &&& m config) := wadd_eq (by omega)
    rw [wrap_eq (by omega), sum, wadd_eq top]

theorem getClassIdBySizeWord_eq (ordered : config.Ordered) (fits : Fits config w)
    (le : size ≤ maxSize config) :
    getClassIdBySizeWord config w size = getClassIdBySize config size := by
  have most : getClassIdBySize config size ≤ largestClassId config := by
    have mid := midClass_pos ordered
    rw [getClassIdBySize_le_iff ordered (by rw [largestClassId_eq]; omega),
      getSizeByClassId_largest ordered]
    exact le
  have words : 2 ^ 32 ≤ 2 ^ w := Nat.pow_le_pow_right (by decide) fits.word
  have bound := lt_of_le_of_lt le fits.maxSize_lt
  have largest : 2 ^ config.maxSizeLog + config.sizeDelta < 2 ^ w := by
    have lt := fits.maxSize_lt
    unfold maxSize at lt
    rwa [Nat.one_shiftLeft] at lt
  have unit := Nat.two_pow_pos config.minSizeLog
  have minMid : 2 ^ config.minSizeLog ≤ 2 ^ config.midSizeLog :=
    Nat.pow_le_pow_right (by decide) ordered.min_le
  have midMax : 2 ^ config.midSizeLog ≤ 2 ^ config.maxSizeLog :=
    Nat.pow_le_pow_right (by decide) ordered.mid_le
  unfold getClassIdBySizeWord
  unfold getClassIdBySize at most ⊢
  rw [wadd_eq (by rw [Nat.one_shiftLeft]; omega)]
  by_cases first : size ≤ config.sizeDelta + (1 <<< config.minSizeLog)
  · rw [if_pos first, if_pos first]
  · rw [if_neg first] at most ⊢
    rw [if_neg first]
    dsimp only at most ⊢
    have rest : wsub w size config.sizeDelta = size - config.sizeDelta := wsub_eq bound (by omega)
    rw [rest]
    by_cases small : size - config.sizeDelta ≤ midSize config
    · have sum : wsub w (wadd w (size - config.sizeDelta) (minSize config)) 1 =
          size - config.sizeDelta + minSize config - 1 := by
        have step : minSize config = 2 ^ config.minSizeLog := Nat.one_shiftLeft _
        have half := Fits.half ordered fits
        rw [midSize_eq] at small
        rw [wadd_eq (by omega), wsub_eq (by omega) (by omega)]
      rw [if_pos small, if_pos small, sum]
    · rw [if_neg small] at most ⊢
      rw [if_neg small, wsub_eq (by omega) (by omega)]
      have few := fits.largest_lt
      have mid : 2 ^ config.midSizeLog ≤ size - config.sizeDelta - 1 := by
        rw [← midSize_eq]
        omega
      have some_ : size - config.sizeDelta - 1 ≠ 0 := by
        have positive := Nat.two_pow_pos config.midSizeLog
        omega
      have log : config.midSizeLog ≤ Nat.log2 (size - config.sizeDelta - 1) :=
        (Nat.le_log2 some_).mpr mid
      have bits : s config ≤ config.midSizeLog := ordered.bits_le
      have leading : 1 <<< s config ≤ (size - config.sizeDelta - 1) >>>
          (Nat.log2 (size - config.sizeDelta - 1) - s config) := by
        have fraction := SignificantBits.leading (le_trans (Nat.pow_le_pow_right (by decide) bits) mid)
        rw [Nat.one_shiftLeft, Nat.shiftRight_eq_div_pow]
        exact fraction.1
      rw [scaledLog2Word_eq (by omega) (by omega) log leading (by omega), wadd_eq (y := 1) (by omega),
        wadd_eq (by omega)]

end Words

end FixedSizeClassMap

end Scudo.Primary
