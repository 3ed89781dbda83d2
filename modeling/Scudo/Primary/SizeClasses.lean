import Scudo.Common

/-!
The sizes of the blocks of each class. `FixedSizeClassMap` computes them, `TableSizeClassMap` reads
them from a table.
-/

namespace Scudo.Primary

def batchClassId : Nat := 0

/-- The batch class has no size in the map. -/
structure SizeClasses where
  numClasses : Nat
  getSizeByClassId : Nat → Nat
  positive : ∀ i < numClasses, i ≠ batchClassId → 0 < getSizeByClassId i
  atMost : ∀ i < numClasses, i ≠ batchClassId → getSizeByClassId i ≤ 2 ^ 20

structure SizeClassConfig where
  numBits : Nat
  minSizeLog : Nat
  midSizeLog : Nat
  maxSizeLog : Nat
  sizeDelta : Nat

namespace FixedSizeClassMap

variable (config : SizeClassConfig)

def midSize : Nat := 1 <<< config.midSizeLog
def midClass : Nat := midSize config / (1 <<< config.minSizeLog)
def s : Nat := config.numBits - 1
def m : Nat := 1 <<< s config - 1

def numClasses : Nat :=
  midClass config + ((config.maxSizeLog - config.midSizeLog) <<< s config) + 1

def getSizeByClassId (classId : Nat) : Nat :=
  if classId ≤ midClass config then classId <<< config.minSizeLog + config.sizeDelta
  else
    let t := midSize config <<< ((classId - midClass config) >>> s config)
    t + (t >>> s config) * ((classId - midClass config) &&& m config) + config.sizeDelta

end FixedSizeClassMap

def defaultSizeClassConfig : SizeClassConfig where
  numBits := 3
  minSizeLog := 5
  midSizeLog := 8
  maxSizeLog := 17
  sizeDelta := 0

def androidClasses : List Nat :=
  [0x00020, 0x00030, 0x00040, 0x00050, 0x00060, 0x00070, 0x00090, 0x000b0,
    0x000c0, 0x000e0, 0x00120, 0x00160, 0x001c0, 0x00250, 0x00320, 0x00450,
    0x00670, 0x00830, 0x00a10, 0x00c30, 0x01010, 0x01210, 0x01bd0, 0x02210,
    0x02d90, 0x03790, 0x04010, 0x04810, 0x05a10, 0x07310, 0x08210, 0x10010]

def defaultSizeClassMap : SizeClasses where
  numClasses := FixedSizeClassMap.numClasses defaultSizeClassConfig
  getSizeByClassId := FixedSizeClassMap.getSizeByClassId defaultSizeClassConfig
  positive := by decide
  atMost := by decide

def androidSizeClassMap : SizeClasses where
  numClasses := androidClasses.length + 1
  getSizeByClassId classId := androidClasses.getD (classId - 1) 0
  positive := by decide
  atMost := by decide

end Scudo.Primary
