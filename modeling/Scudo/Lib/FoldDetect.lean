import Mathlib.Logic.Function.Basic

/-!
Folds that tell lists apart: if a step is injective in the state and in the element, then lists that
differ in one place have different folds.
-/

namespace Scudo.Lib.FoldDetect

variable {σ β : Type*} {step : σ → β → σ}

structure Tells (step : σ → β → σ) : Prop where
  state : ∀ b, Function.Injective fun s => step s b
  element : ∀ s, Function.Injective (step s)

/-- The lists differ at this place and nowhere else. -/
structure DifferAt (i : Nat) (xs ys : List β) : Prop where
  here : xs[i]? ≠ ys[i]?
  elsewhere : ∀ j, j ≠ i → xs[j]? = ys[j]?
  length : xs.length = ys.length

theorem Tells.foldl_injective (tells : Tells step) (xs : List β) :
    Function.Injective fun s => xs.foldl step s := by
  induction xs with
  | nil => exact fun _ _ same => same
  | cons x xs ih => exact fun s t same => tells.state x (ih same)

theorem Tells.foldl_ne (tells : Tells step) {xs ys : List β} {i : Nat} (differ : DifferAt i xs ys)
    (s : σ) : xs.foldl step s ≠ ys.foldl step s := by
  induction xs generalizing ys i s with
  | nil =>
    obtain rfl := List.length_eq_zero_iff.mp differ.length.symm
    exact absurd rfl differ.here
  | cons x xs ih =>
    cases ys with
    | nil => exact absurd differ.length nofun
    | cons y ys =>
      have length : xs.length = ys.length := Nat.succ.inj differ.length
      rw [List.foldl_cons, List.foldl_cons]
      cases i with
      | zero =>
        have unequal : x ≠ y := fun same => differ.here (by simp [same])
        have rest : xs = ys := by
          apply List.ext_getElem?
          intro j
          exact differ.elsewhere (j + 1) (Nat.succ_ne_zero j)
        subst rest
        exact fun same => unequal (tells.element s (tells.foldl_injective xs same))
      | succ i =>
        have head := differ.elsewhere 0 (Nat.succ_ne_zero i).symm
        obtain rfl : x = y := Option.some.inj head
        refine ih ⟨differ.here, ?_, length⟩ _
        intro j other
        exact differ.elsewhere (j + 1) (fun same => other (Nat.succ.inj same))

/-- What stands before and after the lists makes no difference. -/
theorem DifferAt.append_left {i : Nat} {xs ys : List β} (differ : DifferAt i xs ys) (zs : List β) :
    DifferAt (zs.length + i) (zs ++ xs) (zs ++ ys) := by
  obtain ⟨here, elsewhere, length⟩ := differ
  refine ⟨?_, ?_, by rw [List.length_append, List.length_append, length]⟩
  · rw [List.getElem?_append_right (Nat.le_add_right _ _),
      List.getElem?_append_right (Nat.le_add_right _ _), Nat.add_sub_cancel_left]
    exact here
  · intro j other
    by_cases before : j < zs.length
    · rw [List.getElem?_append_left before, List.getElem?_append_left before]
    · have inside := Nat.le_of_not_lt before
      rw [List.getElem?_append_right inside, List.getElem?_append_right inside]
      exact elsewhere _ (by omega)

theorem DifferAt.append_right {i : Nat} {xs ys : List β} (differ : DifferAt i xs ys) (zs : List β) :
    DifferAt i (xs ++ zs) (ys ++ zs) := by
  obtain ⟨here, elsewhere, length⟩ := differ
  have inside : i < xs.length := by
    by_contra outside
    rw [List.getElem?_eq_none (by omega), List.getElem?_eq_none (by omega)] at here
    exact here rfl
  refine ⟨?_, ?_, by rw [List.length_append, List.length_append, length]⟩
  · rw [List.getElem?_append_left inside, List.getElem?_append_left (by omega)]
    exact here
  · intro j other
    by_cases before : j < xs.length
    · rw [List.getElem?_append_left before, List.getElem?_append_left (by omega)]
      exact elsewhere j other
    · rw [List.getElem?_append_right (by omega), List.getElem?_append_right (by omega), length]

end Scudo.Lib.FoldDetect
