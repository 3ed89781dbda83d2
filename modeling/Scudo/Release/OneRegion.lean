import Scudo.Release.CounterRuns

/-!
The counters of one region are the map that the release of pages of a single region works with.
-/

namespace Scudo.Release
open Scudo.Lib

namespace RegionPageMap

/-- The words of one region, as a map of their own. -/
def ofRegion (m : RegionPageMap) (region : Nat) : Primary.RegionPageMap where
  numCounters := m.numCounters
  counterSizeBitsLog := m.counterSizeBitsLog
  counterMask := m.counterMask
  packingRatioLog := m.packingRatioLog
  bitOffsetMask := m.bitOffsetMask
  data := fun k => m.data (region * m.sizePerRegion + k)

theorem reset_ofRegion (numberOfRegion countersPerRegion maxValue region : Nat) :
    (reset .w64 numberOfRegion countersPerRegion maxValue fun _ => 0).ofRegion region =
      Primary.RegionPageMap.reset countersPerRegion maxValue := rfl

variable {m : RegionPageMap} {log region i n first stop value : Nat}

theorem Roomy.index_ofRegion (roomy : m.Roomy log) (here : m.Has region i) :
    m.index region i = region * m.sizePerRegion + (m.ofRegion region).index i := by
  rw [roomy.index_eq here, number_div, ← Nat.shiftRight_eq_div_pow]
  rfl

theorem Shaped.bitOffset_ofRegion (shaped : m.Shaped log) (region i : Nat) :
    m.bitOffset i = (m.ofRegion region).bitOffset i := by
  have inside := shaped.inside i
  have width := Nat.lt_two_pow_self (n := m.word.bits)
  have offset := shaped.bitOffset_eq i
  have narrow : (i &&& m.bitOffsetMask) <<< m.counterSizeBitsLog =
      i % 2 ^ m.packingRatioLog * 2 ^ log := by
    rw [shaped.offset, shaped.bits, Nat.and_two_pow_sub_one_eq_mod, Nat.shiftLeft_eq]
  rw [offset, ← narrow]
  rfl

theorem Roomy.get_ofRegion (roomy : m.Roomy log) (here : m.Has region i) :
    (m.ofRegion region).get i = m.get region i := by
  unfold get Primary.RegionPageMap.get
  rw [roomy.index_ofRegion here, roomy.bitOffset_ofRegion region]
  rfl

/-- A write to a counter of the region is a write to the map of the region. -/
theorem Roomy.store_ofRegion (roomy : m.Roomy log) (here : m.Has region i) :
    (m.store region i value).ofRegion region =
      { m.ofRegion region with
        data := Function.update (m.ofRegion region).data ((m.ofRegion region).index i) value } := by
  have data : (fun k => Function.update m.data (m.index region i) value
      (region * m.sizePerRegion + k)) =
        Function.update (m.ofRegion region).data ((m.ofRegion region).index i) value := by
    funext k
    rw [roomy.index_ofRegion here, Function.update_apply, Function.update_apply]
    simp only [Nat.add_left_cancel_iff]
    rfl
  rw [← data]
  rfl

theorem Roomy.incN_ofRegion (roomy : m.Roomy log) (word : m.word = .w64) (here : m.Has region i) :
    (m.incN region i n).ofRegion region = (m.ofRegion region).incN i n := by
  unfold incN Primary.RegionPageMap.incN
  rw [roomy.store_ofRegion here, roomy.index_ofRegion here,
    roomy.bitOffset_ofRegion region, word]
  rfl

theorem Roomy.setAsAllCounted_ofRegion (roomy : m.Roomy log) (here : m.Has region i) :
    (m.setAsAllCounted region i).ofRegion region = (m.ofRegion region).setAsAllCounted i := by
  unfold setAsAllCounted Primary.RegionPageMap.setAsAllCounted
  rw [roomy.mask_shift, roomy.store_ofRegion here, roomy.index_ofRegion here,
    roomy.bitOffset_ofRegion region]
  rfl

theorem Roomy.updateAsAllCountedIf_ofRegion (roomy : m.Roomy log) (here : m.Has region i) :
    (m.ofRegion region).updateAsAllCountedIf i n =
      ((m.updateAsAllCountedIf region i n).1, (m.updateAsAllCountedIf region i n).2.ofRegion region)
    := by
  have mask : (m.ofRegion region).counterMask = m.counterMask := rfl
  unfold updateAsAllCountedIf Primary.RegionPageMap.updateAsAllCountedIf
  rw [roomy.get_ofRegion here, mask, ← roomy.setAsAllCounted_ofRegion here]
  split_ifs
  · rfl
  · rfl
  · rfl

section Ranges

variable {op : RegionPageMap → Nat → RegionPageMap}
  {opOne : Primary.RegionPageMap → Nat → Primary.RegionPageMap} {order : List Nat}

theorem range_ofRegion (clips : stop + 1 < 2 ^ m.word.bits ∨ m.numCounters ≤ first) :
    m.range first stop = (m.ofRegion region).range first stop := by
  have counters : (m.ofRegion region).numCounters = m.numCounters := rfl
  unfold range Primary.RegionPageMap.range
  dsimp only
  rw [counters]
  rcases clips with small | beyond
  · rw [wadd_eq small]
  · rw [Nat.sub_eq_zero_of_le ((Nat.min_le_right _ _).trans beyond),
      Nat.sub_eq_zero_of_le ((Nat.min_le_right _ _).trans beyond)]

/-- A loop over counters of the region is the same loop on the map of the region. -/
theorem Roomy.foldl_ofRegion
    (pass : ∀ (m : RegionPageMap) (i : Nat), m.word = .w64 → m.Roomy log → m.Has region i →
      (op m i).ofRegion region = opOne (m.ofRegion region) i ∧
        m.Writes (op m i) [m.index region i])
    (word : m.word = .w64) (roomy : m.Roomy log) (valid : ∀ i ∈ order, m.Has region i) :
    (order.foldl op m).ofRegion region = order.foldl opOne (m.ofRegion region) := by
  induction order generalizing m with
  | nil => rfl
  | cons i rest ih =>
    obtain ⟨same, writes⟩ := pass m i word roomy (valid i List.mem_cons_self)
    have word' : (op m i).word = .w64 := by
      rw [writes.shape]
      exact word
    have roomy' : (op m i).Roomy log := by
      rw [writes.shape]
      exact { roomy with }
    have valid' : ∀ j ∈ rest, (op m i).Has region j := by
      intro j member
      rw [writes.shape]
      exact valid j (List.mem_cons_of_mem _ member)
    rw [List.foldl_cons, List.foldl_cons, ih word' roomy' valid', same]

theorem Roomy.incRange_ofRegion (roomy : m.Roomy log) (word : m.word = .w64)
    (inside : region < m.regions)
    (clips : stop + 1 < 2 ^ m.word.bits ∨ m.numCounters ≤ first) :
    (m.incRange region first stop).ofRegion region =
      (m.ofRegion region).incRange first stop := by
  unfold incRange Primary.RegionPageMap.incRange
  rw [← range_ofRegion clips]
  refine roomy.foldl_ofRegion ?_ word fun j member => ⟨inside, mem_range_lt member⟩
  intro m i word roomy here
  exact ⟨roomy.incN_ofRegion word here, writes_store m region i _⟩

theorem Roomy.setAsAllCountedRange_ofRegion (roomy : m.Roomy log) (word : m.word = .w64)
    (inside : region < m.regions)
    (clips : stop + 1 < 2 ^ m.word.bits ∨ m.numCounters ≤ first) :
    (m.setAsAllCountedRange region first stop).ofRegion region =
      (m.ofRegion region).setAsAllCountedRange first stop := by
  unfold setAsAllCountedRange Primary.RegionPageMap.setAsAllCountedRange
  rw [← range_ofRegion clips]
  refine roomy.foldl_ofRegion ?_ word fun j member => ⟨inside, mem_range_lt member⟩
  intro m i _ roomy here
  exact ⟨roomy.setAsAllCounted_ofRegion here, writes_store m region i _⟩

end Ranges

end RegionPageMap

end Scudo.Release
