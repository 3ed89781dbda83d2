import Mathlib.Order.Bounds.Basic
import Scudo.Combined.Allocator
import Scudo.Primary.SizeClassOrder

/-!
The frontend over a `FixedSizeClassMap`: whichever class provides a block, the block is large enough.
-/

namespace Scudo.Combined
open Scudo.Primary Scudo.Primary.FixedSizeClassMap

variable (config : SizeClassConfig)

def fixedSizeClasses : SizeClassMap where
  maxSize := maxSize config
  largestClassId := largestClassId config
  getClassIdBySize := getClassIdBySize config
  getSizeByClassId := getSizeByClassId config

/-- The first class that is asked, and those that are asked where it has no block. -/
theorem allocateFromPrimary_class {p : Secondary.Platform} {classes : SizeClassMap} {primary : Nat → Option Nat}
    {size alignment classId block : Nat}
    (served : allocateFromPrimary p classes primary size alignment = some (classId, block))
    (inside : neededSize p size alignment ≤ classes.maxSize →
      classes.getClassIdBySize (neededSize p size alignment) ≤ classes.largestClassId) :
    classes.getClassIdBySize (neededSize p size alignment) ≤ classId ∧
      classId ≤ classes.largestClassId := by
  unfold allocateFromPrimary at served
  split_ifs at served with canAllocate
  have first := inside canAllocate
  dsimp only at served
  split at served
  · cases served
    exact ⟨le_rfl, first⟩
  · obtain ⟨above, below⟩ := retryLarger_some served
    exact ⟨above.le, by omega⟩

/-- Sizes and classes are adjoint: a class has room for a size if and only if it is not below the
class of the size. -/
theorem size_classes_adjoint (ordered : config.Ordered) :
    (∀ size classId, 1 ≤ size → size ≤ maxSize config → 1 ≤ classId →
      classId ≤ largestClassId config →
      (size ≤ getSizeByClassId config classId ↔ getClassIdBySize config size ≤ classId)) ∧
    (∀ classId classId', 1 ≤ classId → classId < classId' → classId' ≤ largestClassId config →
      getSizeByClassId config classId < getSizeByClassId config classId') ∧
    (∀ size, 1 ≤ size → size ≤ maxSize config → IsLeast
      {classId | 1 ≤ classId ∧ classId ≤ largestClassId config ∧
        size ≤ getSizeByClassId config classId} (getClassIdBySize config size)) ∧
    (∀ classId, 1 ≤ classId → classId ≤ largestClassId config →
      getClassIdBySize config (getSizeByClassId config classId) = classId) ∧
    (∀ (p : Secondary.Platform) primary size alignment classId block,
      allocateFromPrimary p (fixedSizeClasses config) primary size alignment = some (classId, block) →
      classId ≤ largestClassId config ∧
        neededSize p size alignment ≤ getSizeByClassId config classId) ∧
    ∀ w, Fits config w →
      (∀ classId, 1 ≤ classId → classId ≤ largestClassId config →
        getSizeByClassIdWord config w classId = getSizeByClassId config classId) ∧
      ∀ size, 1 ≤ size → size ≤ maxSize config →
        getClassIdBySizeWord config w size = getClassIdBySize config size := by
  have adjoint : ∀ size classId, 1 ≤ classId → (getClassIdBySize config size ≤ classId ↔
      size ≤ getSizeByClassId config classId) :=
    fun _ _ positive => getClassIdBySize_le_iff ordered positive
  have mono := getSizeByClassId_strictMono ordered
  have first : ∀ size, 1 ≤ getClassIdBySize config size := fun _ => getClassIdBySize_pos ordered
  have last : 1 ≤ largestClassId config := by
    have mid := midClass_pos ordered
    rw [largestClassId_eq]
    omega
  have inside : ∀ size, size ≤ maxSize config →
      getClassIdBySize config size ≤ largestClassId config := by
    intro size le
    rw [adjoint size _ last, getSizeByClassId_largest ordered]
    exact le
  refine ⟨fun size classId _ _ positive _ => (adjoint size classId positive).symm,
    fun classId classId' _ less _ => mono less, ?_, ?_, ?_, ?_⟩
  · intro size _ le
    have own := (adjoint size _ (first size)).mp le_rfl
    refine ⟨⟨first size, inside size le, own⟩, ?_⟩
    rintro classId ⟨positive, -, room⟩
    exact (adjoint size classId positive).mpr room
  · intro classId positive _
    apply le_antisymm
    · exact (adjoint _ classId positive).mpr le_rfl
    · exact mono.le_iff_le.mp ((adjoint _ _ (first _)).mp le_rfl)
  · intro p primary size alignment classId block served
    obtain ⟨above, below⟩ := allocateFromPrimary_class served (inside _)
    refine ⟨below, (adjoint _ classId ?_).mp above⟩
    exact le_trans (first _) above
  · exact fun w fits => ⟨fun classId _ le => getSizeByClassIdWord_eq ordered fits le,
      fun size _ le => getClassIdBySizeWord_eq ordered fits le⟩

/-- The map of the default configuration in a word of 64 bits: 129 bytes need the class of 160. -/
theorem size_classes_adjoint_default :
    defaultSizeClassConfig.Ordered ∧
      getClassIdBySizeWord defaultSizeClassConfig 64 129 = 5 ∧
      IsLeast {classId | 1 ≤ classId ∧ classId ≤ largestClassId defaultSizeClassConfig ∧
        129 ≤ getSizeByClassId defaultSizeClassConfig classId} 5 := by
  have ordered : defaultSizeClassConfig.Ordered :=
    ⟨by decide, by decide, by decide, by decide⟩
  have least := (size_classes_adjoint defaultSizeClassConfig ordered).2.2.1 129 (by decide) (by decide)
  exact ⟨ordered, by decide, least⟩

end Scudo.Combined
