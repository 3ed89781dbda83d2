import Mathlib.Data.List.GetD
import Mathlib.Data.List.Nodup
import Mathlib.Data.List.Perm.Subperm
import Scudo.Common
import Scudo.Lib.CyclicWalk
import Scudo.Lib.Transition

/-!
`TSDRegistrySharedT`: the numbers that are coprime to the number of TSDs, and the walk over the TSDs
when the current one is locked.
-/

namespace Scudo.Sync
open Scudo.Lib

/-- `TSDsArraySize`. Two indices of the array have a sum that a `u32` holds. -/
structure RegistryConfig where
  tsdsArraySize : Nat
  sums : tsdsArraySize + tsdsArraySize ≤ 2 ^ 32

/-- What `MutexTSDs` guards. `coPrimes` is `CoPrimes[0..NumberOfCoPrimes)`. -/
structure TSDRegistry where
  numberOfTSDs : Nat
  coPrimes : List Nat
  deriving DecidableEq, Repr

/-- The loop that finds the greatest common divisor. -/
def euclid (a b : Nat) : Nat :=
  if b = 0 then a else euclid b (a % b)
termination_by b
decreasing_by exact Nat.mod_lt _ (by omega)

/-- The coprimes of `n`, in the order in which the loop finds them. -/
def coPrimesOf (n : Nat) : List Nat :=
  (List.range n).foldl (fun coPrimes i => if euclid (i + 1) n = 1 then coPrimes ++ [i + 1] else coPrimes) []

namespace TSDRegistry

def setNumberOfTSDs (config : RegistryConfig) (registry : TSDRegistry) (n : Nat) : TSDRegistry × Bool :=
  if n < registry.numberOfTSDs then (registry, false)
  else
    let n := if n > config.tsdsArraySize then config.tsdsArraySize else n
    (⟨n, coPrimesOf n⟩, true)

/-- `Inc`. -/
def increment (registry : TSDRegistry) (r : Nat) : Nat :=
  registry.coPrimes.getD (r % registry.coPrimes.length) 0

/-- The update of `Index`. -/
def nextIndex (n inc index : Nat) : Nat :=
  let index := wadd 32 index inc
  if index ≥ n then wsub 32 index n else index

/-- What `tryLock` and `getPrecedence` of the context that is tried say. -/
structure Attempt where
  locks : Bool
  precedence : Nat

/-- The TSD that the slow path locks in the end. -/
inductive Choice where
  | current
  | tsd (index : Nat)
  deriving DecidableEq, Repr

/-- The loop of the slow path, attempt `i`: the contexts that are tried, and the choice. -/
def tryContexts (n inc : Nat) (attempts : Nat → Attempt) :
    Nat → Nat → Nat → Nat → Option Nat → List Nat × Choice
  | 0, _, _, _, none => ([], .current)
  | 0, _, _, _, some candidate => ([], .tsd candidate)
  | left + 1, i, index, lowestPrecedence, candidate =>
    if (attempts i).locks then ([index], .tsd index)
    else
      let precedence := (attempts i).precedence
      let better := precedence ≠ 0 ∧ precedence < lowestPrecedence
      let rest := tryContexts n inc attempts left (i + 1) (nextIndex n inc index)
        (if better then precedence else lowestPrecedence) (if better then some index else candidate)
      (index :: rest.1, rest.2)

/-- The slow path with the precedence `r` of the current TSD, where a word has `w` bits. -/
def getTSDAndLockSlow (w : Nat) (registry : TSDRegistry) (r : Nat) (attempts : Nat → Attempt) :
    List Nat × Choice :=
  let n := registry.numberOfTSDs
  let inc := registry.increment r
  if n > 1 then tryContexts n inc attempts (min 4 n) 0 (r % n) (2 ^ w - 1) none
  else ([], .current)

/-- The index after `k` updates. -/
def walk (registry : TSDRegistry) (r k : Nat) : Nat :=
  (nextIndex registry.numberOfTSDs (registry.increment r))^[k] (r % registry.numberOfTSDs)

end TSDRegistry

/-- A registry, whose number of TSDs is set any number of times. -/
def tsdRegistry (config : RegistryConfig) : System TSDRegistry where
  init registry := registry = ⟨0, []⟩
  step registry registry' := ∃ n, registry' = (registry.setNumberOfTSDs config n).1

section CoPrimes

variable {n : Nat}

theorem euclid_eq (a b : Nat) : euclid a b = Nat.gcd a b := by
  fun_induction euclid a b with
  | case1 a => exact (Nat.gcd_zero_right a).symm
  | case2 a b some_ ih => rw [ih, Nat.gcd_comm b, Nat.gcd_comm a b, ← Nat.gcd_rec b a]

theorem foldl_append_if {p : Nat → Prop} [DecidablePred p] (numbers found : List Nat) :
    numbers.foldl (fun found i => if p i then found ++ [i + 1] else found) found =
      found ++ ((numbers.filter p).map (· + 1)) := by
  induction numbers generalizing found with
  | nil => simp
  | cons i rest ih =>
    rw [List.foldl_cons, ih, List.filter_cons]
    by_cases holds : p i
    · simp [holds]
    · simp [holds]

theorem coPrimesOf_eq : coPrimesOf n =
    ((List.range n).filter fun i => Nat.gcd (i + 1) n = 1).map (· + 1) := by
  unfold coPrimesOf
  simp only [euclid_eq]
  rw [foldl_append_if, List.nil_append]

theorem coPrimesOf_sorted : (coPrimesOf n).Pairwise (· < ·) := by
  rw [coPrimesOf_eq, List.pairwise_map]
  refine List.Pairwise.filter _ (List.pairwise_lt_range.imp ?_)
  intro i j less
  omega

theorem mem_coPrimesOf {x : Nat} : x ∈ coPrimesOf n ↔ 1 ≤ x ∧ x ≤ n ∧ Nat.Coprime x n := by
  rw [coPrimesOf_eq, List.mem_map]
  constructor
  · rintro ⟨i, member, rfl⟩
    obtain ⟨inside, coprime⟩ := List.mem_filter.mp member
    rw [List.mem_range] at inside
    exact ⟨by omega, by omega, by simpa using coprime⟩
  · rintro ⟨positive, le, coprime⟩
    refine ⟨x - 1, List.mem_filter.mpr ⟨List.mem_range.mpr (by omega), ?_⟩, by omega⟩
    rw [Nat.sub_add_cancel positive]
    simpa using coprime

/-- One is coprime to every number. -/
theorem coPrimesOf_ne_nil (positive : 1 ≤ n) : coPrimesOf n ≠ [] := by
  apply List.ne_nil_of_mem (a := 1)
  exact mem_coPrimesOf.mpr ⟨le_rfl, positive, Nat.coprime_one_left n⟩

theorem coPrimesOf_length : (coPrimesOf n).length ≤ n := by
  rw [coPrimesOf_eq, List.length_map]
  exact le_trans (List.length_filter_le _ _) (List.length_range).le

end CoPrimes

namespace TSDRegistry

/-- What holds after any calls. -/
structure Valid (config : RegistryConfig) (registry : TSDRegistry) : Prop where
  atMost : registry.numberOfTSDs ≤ config.tsdsArraySize
  coPrimes_eq : registry.coPrimes = coPrimesOf registry.numberOfTSDs

theorem valid_of_reachable {config : RegistryConfig} {registry : TSDRegistry}
    (reached : (tsdRegistry config).Reachable registry) : registry.Valid config := by
  refine reached.invariant ?_ ?_
  · rintro registry rfl
    exact ⟨Nat.zero_le _, rfl⟩
  · rintro registry registry' valid ⟨n, rfl⟩
    unfold setNumberOfTSDs
    dsimp only
    split_ifs with less above
    · exact valid
    · exact ⟨le_rfl, rfl⟩
    · exact ⟨Nat.le_of_not_lt above, rfl⟩

section Walk

variable {config : RegistryConfig} {registry : TSDRegistry} {r : Nat}

theorem increment_mem (valid : registry.Valid config) (positive : 1 ≤ registry.numberOfTSDs) :
    registry.coPrimes[r % registry.coPrimes.length]? = some (registry.increment r) ∧
      registry.increment r ∈ registry.coPrimes := by
  have some_ : registry.coPrimes ≠ [] := by
    rw [valid.coPrimes_eq]
    exact coPrimesOf_ne_nil positive
  have inside : r % registry.coPrimes.length < registry.coPrimes.length :=
    Nat.mod_lt _ (List.length_pos_iff.mpr some_)
  unfold increment
  rw [List.getD_eq_getElem _ _ inside, List.getElem?_eq_getElem inside]
  exact ⟨rfl, List.getElem_mem inside⟩

/-- The walk goes around the circle of the TSDs. -/
theorem walk_eq (valid : registry.Valid config) (positive : 1 ≤ registry.numberOfTSDs) (k : Nat) :
    registry.walk r k = CyclicWalk.place registry.numberOfTSDs (registry.increment r)
      (r % registry.numberOfTSDs) k := by
  have member := (increment_mem (r := r) valid positive).2
  rw [valid.coPrimes_eq, mem_coPrimesOf] at member
  have sums := config.sums
  have atMost := valid.atMost
  unfold walk
  induction k with
  | zero => exact (CyclicWalk.place_zero (Nat.mod_lt _ positive)).symm
  | succ k ih =>
    have inside : CyclicWalk.place registry.numberOfTSDs (registry.increment r)
        (r % registry.numberOfTSDs) k < registry.numberOfTSDs := CyclicWalk.place_lt positive
    rw [Function.iterate_succ_apply', ih, CyclicWalk.place_succ_once positive member.2.1]
    unfold nextIndex
    rw [wadd_eq (by omega)]
    dsimp only
    split_ifs with past
    · exact wsub_eq (by omega) past
    · rfl

theorem walk_lt (valid : registry.Valid config) (positive : 1 ≤ registry.numberOfTSDs) (k : Nat) :
    registry.walk r k < registry.numberOfTSDs := by
  rw [walk_eq valid positive]
  exact CyclicWalk.place_lt positive

theorem walk_inj (valid : registry.Valid config) (positive : 1 ≤ registry.numberOfTSDs) {j k : Nat}
    (ltJ : j < registry.numberOfTSDs) (ltK : k < registry.numberOfTSDs)
    (same : registry.walk r j = registry.walk r k) : j = k := by
  have member := (increment_mem (r := r) valid positive).2
  rw [valid.coPrimes_eq, mem_coPrimesOf] at member
  rw [walk_eq valid positive, walk_eq valid positive] at same
  exact CyclicWalk.place_inj member.2.2 ltJ ltK same

/-- The first places of the walk are different ones. -/
theorem walk_nodup (valid : registry.Valid config) (positive : 1 ≤ registry.numberOfTSDs) {count : Nat}
    (le : count ≤ registry.numberOfTSDs) : ((List.range count).map (registry.walk r)).Nodup := by
  refine List.Nodup.map_on ?_ List.nodup_range
  intro j jIn k kIn same
  rw [List.mem_range] at jIn kIn
  exact walk_inj valid positive (by omega) (by omega) same

/-- As many steps as there are TSDs visit all of them. -/
theorem walk_perm (valid : registry.Valid config) (positive : 1 ≤ registry.numberOfTSDs) :
    ((List.range registry.numberOfTSDs).map (registry.walk r)).Perm
      (List.range registry.numberOfTSDs) := by
  have subset : (List.range registry.numberOfTSDs).map (registry.walk r) ⊆
      List.range registry.numberOfTSDs := by
    intro x member
    obtain ⟨k, -, rfl⟩ := List.mem_map.mp member
    exact List.mem_range.mpr (walk_lt valid positive k)
  refine ((walk_nodup valid positive le_rfl).subperm subset).perm_of_length_le ?_
  rw [List.length_map]

end Walk

section SlowPath

variable {n inc start : Nat} {attempts : Nat → Attempt}

/-- The contexts that are tried are the first ones of the walk, and the choice is one of them, of an
earlier candidate, or the current one. -/
theorem tryContexts_walk (left i lowest : Nat) (candidate : Option Nat) :
    ∃ tried choice, tryContexts n inc attempts left i ((nextIndex n inc)^[i] start) lowest candidate =
        ((List.range' i tried).map fun k => (nextIndex n inc)^[k] start, choice) ∧
      tried ≤ left ∧ ∀ index, choice = .tsd index → candidate = some index ∨
        index ∈ (List.range' i tried).map fun k => (nextIndex n inc)^[k] start := by
  induction left generalizing i lowest candidate with
  | zero =>
    cases candidate with
    | none => exact ⟨0, .current, rfl, le_rfl, nofun⟩
    | some candidate =>
      refine ⟨0, .tsd candidate, rfl, le_rfl, ?_⟩
      rintro index ⟨⟩
      exact Or.inl rfl
  | succ left ih =>
    unfold tryContexts
    dsimp only
    split_ifs with locks better
    · refine ⟨1, .tsd _, rfl, by omega, ?_⟩
      rintro index ⟨⟩
      exact Or.inr List.mem_cons_self
    · obtain ⟨tried, choice, run, le, chosen⟩ := ih (i + 1) (attempts i).precedence
        (some ((nextIndex n inc)^[i] start))
      rw [Function.iterate_succ_apply'] at run
      refine ⟨tried + 1, choice, ?_, by omega, ?_⟩
      · rw [run, List.range'_succ, List.map_cons]
      · intro index same
        rw [List.range'_succ, List.map_cons]
        rcases chosen index same with here | later
        · obtain rfl := Option.some.inj here
          exact Or.inr List.mem_cons_self
        · exact Or.inr (List.mem_cons_of_mem _ later)
    · obtain ⟨tried, choice, run, le, chosen⟩ := ih (i + 1) lowest candidate
      rw [Function.iterate_succ_apply'] at run
      refine ⟨tried + 1, choice, ?_, by omega, ?_⟩
      · rw [run, List.range'_succ, List.map_cons]
      · intro index same
        rw [List.range'_succ, List.map_cons]
        rcases chosen index same with earlier | later
        · exact Or.inl earlier
        · exact Or.inr (List.mem_cons_of_mem _ later)

end SlowPath

section Theorem

variable {config : RegistryConfig} {registry : TSDRegistry}

/-- The slow path tries at most four different TSDs, and locks one of them or the current one. -/
theorem getTSDAndLockSlow_tries (valid : registry.Valid config)
    (positive : 1 ≤ registry.numberOfTSDs) (w r : Nat) (attempts : Nat → Attempt) :
    ∃ tried choice, registry.getTSDAndLockSlow w r attempts =
        ((List.range tried).map (registry.walk r), choice) ∧
      tried ≤ 4 ∧ ((List.range tried).map (registry.walk r)).Nodup ∧
      ∀ index, choice = .tsd index → index ∈ (List.range tried).map (registry.walk r) := by
  unfold getTSDAndLockSlow
  dsimp only
  split_ifs with several
  · obtain ⟨tried, choice, run, le, chosen⟩ := @tryContexts_walk registry.numberOfTSDs
      (registry.increment r) (r % registry.numberOfTSDs) attempts (min 4 registry.numberOfTSDs) 0
      (2 ^ w - 1) none
    rw [← List.range_eq_range'] at run chosen
    refine ⟨tried, choice, run, by omega, walk_nodup valid positive (by omega), ?_⟩
    intro index same
    rcases chosen index same with none_ | member
    · exact absurd none_ nofun
    · exact member
  · exact ⟨0, .current, rfl, Nat.zero_le _, List.nodup_nil, nofun⟩

/-- Whatever calls set the number of TSDs: the coprimes are those of that number, and the walk visits
all TSDs once in as many steps, so that the contexts which the slow path tries are different ones. -/
theorem tsd_walk_permutes (reached : (tsdRegistry config).Reachable registry)
    (positive : 1 ≤ registry.numberOfTSDs) (r : Nat) :
    registry.numberOfTSDs ≤ config.tsdsArraySize ∧
    (∀ i < registry.numberOfTSDs,
      euclid (i + 1) registry.numberOfTSDs = Nat.gcd (i + 1) registry.numberOfTSDs) ∧
    (registry.coPrimes.Pairwise (· < ·) ∧ registry.coPrimes ≠ [] ∧
      registry.coPrimes.length ≤ config.tsdsArraySize ∧
      ∀ x, x ∈ registry.coPrimes ↔ 1 ≤ x ∧ x ≤ registry.numberOfTSDs ∧
        Nat.Coprime x registry.numberOfTSDs) ∧
    registry.coPrimes[r % registry.coPrimes.length]? = some (registry.increment r) ∧
    registry.walk r 0 = r % registry.numberOfTSDs ∧
    (∀ k, registry.walk r (k + 1) =
      nextIndex registry.numberOfTSDs (registry.increment r) (registry.walk r k)) ∧
    (∀ k, registry.walk r k < registry.numberOfTSDs) ∧
    ((List.range registry.numberOfTSDs).map (registry.walk r)).Perm
      (List.range registry.numberOfTSDs) ∧
    ∀ w attempts, ∃ tried choice, registry.getTSDAndLockSlow w r attempts =
        ((List.range tried).map (registry.walk r), choice) ∧
      tried ≤ 4 ∧ ((List.range tried).map (registry.walk r)).Nodup ∧
      ∀ index, choice = .tsd index → index ∈ (List.range tried).map (registry.walk r) := by
  have valid := valid_of_reachable reached
  refine ⟨valid.atMost, fun i _ => euclid_eq _ _, ⟨?_, ?_, ?_, ?_⟩,
    (increment_mem valid positive).1, rfl, ?_, walk_lt valid positive, ?_,
    fun w attempts => getTSDAndLockSlow_tries valid positive w r attempts⟩
  · rw [valid.coPrimes_eq]
    exact coPrimesOf_sorted
  · rw [valid.coPrimes_eq]
    exact coPrimesOf_ne_nil positive
  · rw [valid.coPrimes_eq]
    exact le_trans coPrimesOf_length valid.atMost
  · intro x
    rw [valid.coPrimes_eq]
    exact mem_coPrimesOf
  · exact fun k => Function.iterate_succ_apply' _ _ _
  · exact walk_perm valid positive

end Theorem

/-- Eight TSDs at most, of which six are used. -/
theorem tsd_walk_permutes_six : (⟨6, [1, 5]⟩ : TSDRegistry).walk 7 1 = 0 ∧
    ((List.range 6).map ((⟨6, [1, 5]⟩ : TSDRegistry).walk 7)).Perm (List.range 6) := by
  have same : coPrimesOf 6 = [1, 5] := by
    rw [coPrimesOf_eq]
    decide
  have reached : (tsdRegistry ⟨8, by decide⟩).Reachable ⟨6, [1, 5]⟩ := by
    refine .step (.init rfl) ⟨6, ?_⟩
    rw [← same]
    rfl
  exact ⟨by decide, (tsd_walk_permutes reached (by decide) 7).2.2.2.2.2.2.2.1⟩

end TSDRegistry

end Scudo.Sync
