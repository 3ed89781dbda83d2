import Scudo.Primary.PageMap
import Scudo.Secondary.Types

/-!
`RegionPageMap` with all its regions: the counters of a region fill whole words of the buffer, and
the regions are behind each other. Every size and every index is computed in words of the machine.
-/

namespace Scudo.Release
open Scudo.Lib
open Scudo.Secondary (WordSize)
open Scudo.Primary (getMostSignificantSetBitIndex roundUpPowerOfTwo getLog2)

structure RegionPageMap where
  word : WordSize
  regions : Nat
  numCounters : Nat
  counterSizeBitsLog : Nat
  counterMask : Nat
  packingRatioLog : Nat
  bitOffsetMask : Nat
  sizePerRegion : Nat
  bufferNumElements : Nat
  /-- The memory that `Buffer.Data` points to. -/
  data : Nat → Nat

namespace RegionPageMap

/-- `buffer` is what `getBuffer` returned for `BufferNumElements`. -/
def reset (word : WordSize) (numberOfRegion countersPerRegion maxValue : Nat)
    (buffer : Nat → Nat) : RegionPageMap :=
  let maxCounterBits := word.bits
  let counterSizeBits := roundUpPowerOfTwo (getMostSignificantSetBitIndex maxValue + 1)
  let counterSizeBitsLog := getLog2 counterSizeBits
  let packingRatio := maxCounterBits >>> counterSizeBitsLog
  let packingRatioLog := getLog2 packingRatio
  let sizePerRegion :=
    roundUp word.bits countersPerRegion (wrap word.bits (1 <<< packingRatioLog)) >>> packingRatioLog
  { word := word
    regions := numberOfRegion
    numCounters := countersPerRegion
    counterSizeBitsLog := counterSizeBitsLog
    counterMask := wnot word.bits 0 >>> (maxCounterBits - counterSizeBits)
    packingRatioLog := packingRatioLog
    bitOffsetMask := packingRatio - 1
    sizePerRegion := sizePerRegion
    bufferNumElements := wrap word.bits (sizePerRegion * numberOfRegion)
    data := buffer }

/-- `Region * SizePerRegion + Index`. -/
def index (m : RegionPageMap) (region i : Nat) : Nat :=
  wadd m.word.bits (wrap m.word.bits (region * m.sizePerRegion)) (i >>> m.packingRatioLog)

def bitOffset (m : RegionPageMap) (i : Nat) : Nat :=
  wrap m.word.bits ((i &&& m.bitOffsetMask) <<< m.counterSizeBitsLog)

def get (m : RegionPageMap) (region i : Nat) : Nat :=
  (m.data (m.index region i) >>> m.bitOffset i) &&& m.counterMask

def store (m : RegionPageMap) (region i value : Nat) : RegionPageMap :=
  { m with data := Function.update m.data (m.index region i) value }

def incN (m : RegionPageMap) (region i n : Nat) : RegionPageMap :=
  m.store region i
    (wadd m.word.bits (m.data (m.index region i)) (wrap m.word.bits (n <<< m.bitOffset i)))

def inc (m : RegionPageMap) (region i : Nat) : RegionPageMap := m.incN region i 1

/-- The indices of a loop from `first` up to `Top`, the end of the range or of the counters. -/
def range (m : RegionPageMap) (first last : Nat) : List Nat :=
  let top := min (wadd m.word.bits last 1) m.numCounters
  List.range' first (top - first)

def incRange (m : RegionPageMap) (region first last : Nat) : RegionPageMap :=
  (m.range first last).foldl (fun m i => m.inc region i) m

def setAsAllCounted (m : RegionPageMap) (region i : Nat) : RegionPageMap :=
  m.store region i
    (m.data (m.index region i) ||| wrap m.word.bits (m.counterMask <<< m.bitOffset i))

def setAsAllCountedRange (m : RegionPageMap) (region first last : Nat) : RegionPageMap :=
  (m.range first last).foldl (fun m i => m.setAsAllCounted region i) m

def updateAsAllCountedIf (m : RegionPageMap) (region i maxCount : Nat) : Bool × RegionPageMap :=
  if m.get region i = m.counterMask then (true, m)
  else if m.get region i = maxCount then (true, m.setAsAllCounted region i)
  else (false, m)

def isAllCounted (m : RegionPageMap) (region i : Nat) : Bool := m.get region i == m.counterMask

end RegionPageMap

end Scudo.Release
