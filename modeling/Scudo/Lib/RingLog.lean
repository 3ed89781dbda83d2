import Mathlib.Data.Nat.ModEq
import Mathlib.Data.List.Basic
import Mathlib.Logic.Function.Basic
import Mathlib.Tactic.Common

/-!
A ring that is written from its beginning again and again, as the end of the log of all writes.
-/

namespace Scudo.Lib

variable {α : Type*} {size : Nat} {ring : Nat → α} {blank : α} {log : List α}

/-- The ring has the last elements of the log, and is blank where the log has not come yet. -/
structure RingHolds (size : Nat) (ring : Nat → α) (blank : α) (log : List α) : Prop where
  recent : ∀ i (inside : i < log.length), log.length ≤ i + size → ring (i % size) = log[i]
  fresh : ∀ place < size, log.length ≤ place → ring place = blank

namespace RingHolds

/-- Fewer than `size` steps do not lead back to the same place. -/
theorem mod_ne {i j : Nat} (below : i < j) (near : j < i + size) : i % size ≠ j % size := by
  intro same
  have divides : size ∣ j - i := (Nat.modEq_iff_dvd' (le_of_lt below)).mp same
  have le := Nat.le_of_dvd (by omega) divides
  omega

theorem empty (everywhere : ∀ place, ring place = blank) : RingHolds size ring blank [] :=
  ⟨fun _ inside => absurd inside (Nat.not_lt_zero _), fun place _ _ => everywhere place⟩

/-- The next write goes behind the last one. -/
theorem push (holds : RingHolds size ring blank log) (x : α) :
    RingHolds size (Function.update ring (log.length % size) x) blank (log ++ [x]) := by
  constructor
  · intro i inside near
    rw [List.length_append, List.length_singleton] at inside near
    by_cases last : i = log.length
    · subst last
      rw [Function.update_self, List.getElem_append_right le_rfl]
      simp
    · have before : i < log.length := by omega
      rw [Function.update_of_ne (mod_ne before (by omega)), List.getElem_append_left before]
      exact holds.recent i before (by omega)
  · intro place inside behind
    rw [List.length_append, List.length_singleton] at behind
    have different : place ≠ log.length % size := by
      rw [Nat.mod_eq_of_lt (by omega)]
      omega
    rw [Function.update_of_ne different]
    exact holds.fresh place inside (by omega)

/-- What is at a place was written there last. -/
theorem written (holds : RingHolds size ring blank log) {place : Nat} (inside : place < size) :
    ring place = blank ∨ ∃ i, ∃ before : i < log.length, i % size = place ∧
      log.length ≤ i + size ∧ ring place = log[i] := by
  by_cases fresh : log.length ≤ place
  · exact Or.inl (holds.fresh place inside fresh)
  · right
    have parts := Nat.div_add_mod (log.length - 1 - place) size
    have rest := Nat.mod_lt (log.length - 1 - place) (by omega : 0 < size)
    have index : place + size * ((log.length - 1 - place) / size) < log.length := by omega
    have turn : (place + size * ((log.length - 1 - place) / size)) % size = place := by
      rw [Nat.add_mul_mod_self_left, Nat.mod_eq_of_lt inside]
    have near : log.length ≤ place + size * ((log.length - 1 - place) / size) + size := by omega
    refine ⟨_, index, turn, near, ?_⟩
    have value := holds.recent _ index near
    rwa [turn] at value

end RingHolds

end Scudo.Lib
