import Mathlib.Data.List.Basic

/-!
The maximal runs of numbers with a property, as a scan from 0 on collects them: one run is open, or
none, and the runs that have ended are in a list.
-/

namespace Scudo.Lib

/-- The pairs are the first number of a run and the one after its last, in order. -/
structure MaximalRuns (good : Nat → Prop) (count : Nat) (runs : List (Nat × Nat)) : Prop where
  run : ∀ r ∈ runs, r.1 < r.2 ∧ r.2 ≤ count ∧ (∀ i, r.1 ≤ i → i < r.2 → good i) ∧
    (r.1 = 0 ∨ ¬good (r.1 - 1)) ∧ (r.2 = count ∨ ¬good r.2)
  covers : ∀ i < count, good i → ∃ r ∈ runs, r.1 ≤ i ∧ i < r.2
  increasing : runs.Pairwise fun a b => a.2 < b.1

namespace MaximalRuns

variable {good good' : Nat → Prop} {count : Nat} {runs : List (Nat × Nat)}

/-- The runs are those of any property that is the same on the numbers that are scanned. -/
theorem congr (maximal : MaximalRuns good count runs) (same : ∀ i < count, good' i ↔ good i) :
    MaximalRuns good' count runs where
  run := by
    intro r member
    obtain ⟨some_, inside, all, start, stop⟩ := maximal.run r member
    refine ⟨some_, inside, ?_, ?_, ?_⟩
    · intro i above below
      exact (same i (by omega)).mpr (all i above below)
    · exact start.imp id fun bad is => bad ((same _ (by omega)).mp is)
    · rcases Nat.eq_or_lt_of_le inside with last | inner
      · exact Or.inl last
      · exact stop.imp id fun bad is => bad ((same _ inner).mp is)
  covers := fun i below is => maximal.covers i below ((same i below).mp is)
  increasing := maximal.increasing

/-- A number is in a run exactly when it has the property. -/
theorem mem_iff (maximal : MaximalRuns good count runs) {i : Nat} :
    (∃ r ∈ runs, r.1 ≤ i ∧ i < r.2) ↔ i < count ∧ good i := by
  constructor
  · rintro ⟨r, member, above, below⟩
    obtain ⟨_, inside, all, _⟩ := maximal.run r member
    exact ⟨Nat.lt_of_lt_of_le below inside, all i above below⟩
  · rintro ⟨below, is⟩
    exact maximal.covers i below is

end MaximalRuns

/-- After the first `k` numbers, with the start of the open run. -/
structure RunScan (good : Nat → Prop) (k : Nat) (opened : Option Nat) (runs : List (Nat × Nat)) :
    Prop where
  run : ∀ r ∈ runs, r.1 < r.2 ∧ r.2 < opened.getD k ∧ (∀ i, r.1 ≤ i → i < r.2 → good i) ∧
    (r.1 = 0 ∨ ¬good (r.1 - 1)) ∧ ¬good r.2
  covers : ∀ i < opened.getD k, good i → ∃ r ∈ runs, r.1 ≤ i ∧ i < r.2
  increasing : runs.Pairwise fun a b => a.2 < b.1
  inside : ∀ s, opened = some s →
    s < k ∧ (∀ i, s ≤ i → i < k → good i) ∧ (s = 0 ∨ ¬good (s - 1))
  outside : opened = none → k = 0 ∨ ¬good (k - 1)

namespace RunScan

variable {good : Nat → Prop} {k s : Nat} {runs : List (Nat × Nat)}

theorem start : RunScan good 0 none [] where
  run := nofun
  covers := nofun
  increasing := List.Pairwise.nil
  inside := nofun
  outside := fun _ => Or.inl rfl

theorem extend (scan : RunScan good k (some s) runs) (now : good k) :
    RunScan good (k + 1) (some s) runs where
  run := scan.run
  covers := scan.covers
  increasing := scan.increasing
  inside := by
    intro t same
    obtain rfl := Option.some.inj same
    obtain ⟨less, all, maximal⟩ := scan.inside s rfl
    refine ⟨by omega, ?_, maximal⟩
    intro i above below
    rcases Nat.lt_succ_iff_lt_or_eq.mp below with before | rfl
    · exact all i above before
    · exact now
  outside := nofun

theorem begin (scan : RunScan good k none runs) (now : good k) :
    RunScan good (k + 1) (some k) runs where
  run := scan.run
  covers := scan.covers
  increasing := scan.increasing
  inside := by
    intro t same
    obtain rfl := Option.some.inj same
    refine ⟨Nat.lt_succ_self k, ?_, scan.outside rfl⟩
    intro i above below
    obtain rfl : i = k := by omega
    exact now
  outside := nofun

theorem skip (scan : RunScan good k none runs) (now : ¬good k) :
    RunScan good (k + 1) none runs where
  run := by
    intro r member
    obtain ⟨some_, before, rest⟩ := scan.run r member
    exact ⟨some_, Nat.lt_succ_of_lt before, rest⟩
  covers := by
    intro i below is
    rcases Nat.lt_succ_iff_lt_or_eq.mp below with before | rfl
    · exact scan.covers i before is
    · exact absurd is now
  increasing := scan.increasing
  inside := nofun
  outside := fun _ => Or.inr now

/-- The open run ends at `k`, which is not good or the end. -/
theorem append (scan : RunScan good k (some s) runs) :
    (∀ i < k, good i → ∃ r ∈ runs ++ [(s, k)], r.1 ≤ i ∧ i < r.2) ∧
      (runs ++ [(s, k)]).Pairwise fun a b => a.2 < b.1 := by
  obtain ⟨less, all, _⟩ := scan.inside s rfl
  constructor
  · intro i below is
    by_cases before : i < s
    · obtain ⟨r, member, inside⟩ := scan.covers i before is
      exact ⟨r, List.mem_append_left _ member, inside⟩
    · exact ⟨(s, k), List.mem_append_right _ List.mem_cons_self, by omega, below⟩
  · rw [List.pairwise_append]
    refine ⟨scan.increasing, List.pairwise_singleton _ _, ?_⟩
    intro a member b last
    rw [List.mem_singleton.mp last]
    exact (scan.run a member).2.1

theorem close (scan : RunScan good k (some s) runs) (now : ¬good k) :
    RunScan good (k + 1) none (runs ++ [(s, k)]) where
  run := by
    obtain ⟨less, all, maximal⟩ := scan.inside s rfl
    intro r member
    rcases List.mem_append.mp member with before | last
    · obtain ⟨some_, early, rest⟩ := scan.run r before
      exact ⟨some_, Nat.lt_trans early (Nat.lt_succ_of_lt less), rest⟩
    · rw [List.mem_singleton.mp last]
      exact ⟨less, Nat.lt_succ_self k, all, maximal, now⟩
  covers := by
    intro i below is
    rcases Nat.lt_succ_iff_lt_or_eq.mp below with before | rfl
    · exact scan.append.1 i before is
    · exact absurd is now
  increasing := scan.append.2
  inside := nofun
  outside := fun _ => Or.inr now

theorem finish (scan : RunScan good k none runs) : MaximalRuns good k runs where
  run := by
    intro r member
    obtain ⟨some_, before, all, maximal, ends⟩ := scan.run r member
    exact ⟨some_, Nat.le_of_lt before, all, maximal, Or.inr ends⟩
  covers := scan.covers
  increasing := scan.increasing

theorem finishOpened (scan : RunScan good k (some s) runs) :
    MaximalRuns good k (runs ++ [(s, k)]) where
  run := by
    obtain ⟨less, all, maximal⟩ := scan.inside s rfl
    intro r member
    rcases List.mem_append.mp member with before | last
    · obtain ⟨some_, early, goods, starts, ends⟩ := scan.run r before
      exact ⟨some_, Nat.le_of_lt (Nat.lt_trans early less), goods, starts, Or.inr ends⟩
    · rw [List.mem_singleton.mp last]
      exact ⟨less, Nat.le_refl k, all, maximal, Or.inl rfl⟩
  covers := scan.append.1
  increasing := scan.append.2

end RunScan

end Scudo.Lib
