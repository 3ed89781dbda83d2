import Mathlib.Data.List.Basic
import Scudo.Lib.RingLog
import Scudo.Lib.Transition

/-!
A ring of slots that several threads write without a lock. A write takes the next place, and then stores
the parts of its entry one at a time: the first store makes the slot blank, and only the last one makes it
readable again. Whoever looks at a slot between two stores finds it blank or finds an entry as a whole.
-/

namespace Scudo.Lib.SlotRing

/-- How an entry is written over what a slot has. -/
structure Writer (E : Type) where
  steps : Nat
  /-- The effect of one of the stores. -/
  write : E → Nat → E → E
  Blank : E → Prop

variable {τ E : Type} [DecidableEq τ]

/-- The first `k` stores. -/
def Writer.writes (w : Writer E) (e : E) : Nat → E → E
  | 0, old => old
  | k + 1, old => w.write e k (w.writes e k old)

structure Writer.Lawful (w : Writer E) : Prop where
  some_ : 0 < w.steps
  blank : ∀ e old k, 0 < k → k < w.steps → w.Blank (w.writes e k old)
  all : ∀ e old, w.writes e w.steps old = e

/-- A writer has its place, its entry, and the number of its stores that are done; the log has the entries
in the order of their places. -/
structure State (τ E : Type) where
  slots : Nat → E
  log : List E
  pending : τ → Option (Nat × E × Nat)

namespace State

def claim (s : State τ E) (t : τ) (e : E) : State τ E where
  slots := s.slots
  log := s.log ++ [e]
  pending := Function.update s.pending t (some (s.log.length, e, 0))

def store (s : State τ E) (w : Writer E) (size : Nat) (t : τ) (n : Nat) (e : E) (k : Nat)
    (next : Option (Nat × E × Nat)) : State τ E where
  slots := Function.update s.slots (n % size) (w.write e k (s.slots (n % size)))
  log := s.log
  pending := Function.update s.pending t next

end State

variable (w : Writer E) (size : Nat)

/-- No place is taken while the slot is still written for an older one. -/
inductive Step : State τ E → State τ E → Prop
  | claim {s : State τ E} (t : τ) (e : E) (idle : s.pending t = none)
      (free : ∀ u n e' k, s.pending u = some (n, e', k) → n % size ≠ s.log.length % size) :
      Step s (s.claim t e)
  | store {s : State τ E} (t : τ) (n : Nat) (e : E) (k : Nat) (get : s.pending t = some (n, e, k))
      (more : k + 1 < w.steps) : Step s (s.store w size t n e k (some (n, e, k + 1)))
  | finish {s : State τ E} (t : τ) (n : Nat) (e : E) (k : Nat) (get : s.pending t = some (n, e, k))
      (last : k + 1 = w.steps) : Step s (s.store w size t n e k none)

structure Sound (s : State τ E) : Prop where
  bounds : ∀ t n e k, s.pending t = some (n, e, k) →
    (∃ inside : n < s.log.length, s.log[n] = e) ∧ s.log.length ≤ n + size ∧ k < w.steps
  unique : ∀ t u n e e' k k', s.pending t = some (n, e, k) → s.pending u = some (n, e', k') → t = u
  settled : ∀ i (inside : i < s.log.length), s.log.length ≤ i + size →
    (∀ t e k, s.pending t ≠ some (i, e, k)) → s.slots (i % size) = s.log[i]
  written : ∀ t n e k, s.pending t = some (n, e, k) → 0 < k →
    ∃ old, s.slots (n % size) = w.writes e k old
  claimed : ∀ t n e, s.pending t = some (n, e, 0) → (n < size ∧ w.Blank (s.slots (n % size))) ∨
    (size ≤ n ∧ ∃ inside : n - size < s.log.length, s.slots (n % size) = s.log[n - size])
  fresh : ∀ place < size, s.log.length ≤ place → w.Blank (s.slots place)

/-- What a reader finds at the place `i`. -/
inductive Shown (s : State τ E) (i : Nat) : Option E → Prop
  | stored (inside : i < s.log.length) (free : ∀ t e k, s.pending t ≠ some (i, e, k)) : Shown s i s.log[i]
  | writing (t : τ) (e : E) (k : Nat) (get : s.pending t = some (i, e, k)) (started : 0 < k) : Shown s i none
  | early (t : τ) (e : E) (get : s.pending t = some (i, e, 0)) (first : i < size) : Shown s i none
  | old (t : τ) (e : E) (get : s.pending t = some (i, e, 0)) (again : size ≤ i)
      (inside : i - size < s.log.length) : Shown s i s.log[i - size]

section Shown

variable {size} {s : State τ E} {i : Nat} {view : Option E}

omit [DecidableEq τ] in
/-- A place that nobody writes shows its entry. -/
theorem Shown.eq_stored (shown : Shown size s i view) (inside : i < s.log.length)
    (free : ∀ t e k, s.pending t ≠ some (i, e, k)) : view = some s.log[i] := by
  cases shown with
  | stored => rfl
  | writing t e k get started => exact absurd get (free t e k)
  | early t e get first => exact absurd get (free t e 0)
  | old t e get again inside => exact absurd get (free t e 0)

omit [DecidableEq τ] in
/-- A place whose write has begun shows nothing. -/
theorem Shown.eq_none (shown : Shown size s i view) {t : τ} {e : E} {k : Nat}
    (get : s.pending t = some (i, e, k)) (started : ∀ u e, s.pending u ≠ some (i, e, 0)) :
    view = none := by
  cases shown with
  | stored inside free => exact absurd get (free t e k)
  | writing => rfl
  | early => rfl
  | old u e' now again inside => exact absurd now (started u e')

end Shown

section Step

variable {w size} {s s' : State τ E} {t u : τ} {n i k : Nat} {e : E} {next : Option (Nat × E × Nat)}

omit [DecidableEq τ] in
/-- Two places of which both can still be read have different slots. -/
theorem slots_ne (inside : n < s.log.length) (near : s.log.length ≤ n + size) (other : i ≠ n)
    (inside' : i < s.log.length) (near' : s.log.length ≤ i + size) : i % size ≠ n % size := by
  rcases Nat.lt_or_gt_of_ne other with less | greater
  · exact RingHolds.mod_ne less (by omega)
  · exact (RingHolds.mod_ne greater (by omega)).symm

theorem Sound.claim (sound : Sound w size s) (positive : 0 < size) (lawful : w.Lawful)
    (idle : s.pending t = none)
    (free : ∀ u n e' k, s.pending u = some (n, e', k) → n % size ≠ s.log.length % size) :
    Sound w size (s.claim t e) := by
  -- a write of an older place is of another one than the slot that is left
  have stays : ∀ u n e' k, s.pending u = some (n, e', k) → s.log.length + 1 ≤ n + size := by
    intro u n e' k get
    obtain ⟨⟨inside, -⟩, near, -⟩ := sound.bounds u n e' k get
    have different := free u n e' k get
    have other : n + size ≠ s.log.length := by
      rintro same
      rw [← same, Nat.add_mod_right] at different
      exact different rfl
    omega
  have either : ∀ u n e' k, (s.claim t e).pending u = some (n, e', k) →
      (u = t ∧ n = s.log.length ∧ e' = e ∧ k = 0) ∨ (u ≠ t ∧ s.pending u = some (n, e', k)) := by
    intro u n e' k get
    change Function.update s.pending t _ u = _ at get
    by_cases same : u = t
    · subst same
      rw [Function.update_self] at get
      cases get
      exact Or.inl ⟨rfl, rfl, rfl, rfl⟩
    · rw [Function.update_of_ne same] at get
      exact Or.inr ⟨same, get⟩
  have longer : (s.claim t e).log.length = s.log.length + 1 := List.length_append
  have kept (i : Nat) (inside : i < s.log.length) (inside' : i < (s.claim t e).log.length) :
      (s.claim t e).log[i] = s.log[i] := List.getElem_append_left inside
  constructor
  · intro u n e' k get
    rcases either u n e' k get with ⟨rfl, rfl, rfl, rfl⟩ | ⟨-, before⟩
    · exact ⟨⟨by omega, List.getElem_concat_length rfl ..⟩, by omega, lawful.some_⟩
    · obtain ⟨⟨inside, entry⟩, -, more⟩ := sound.bounds u n e' k before
      have near := stays u n e' k before
      exact ⟨⟨by omega, (kept n inside _).trans entry⟩, by omega, more⟩
  · intro u v n e' e'' k k' first second
    rcases either u n e' k first with ⟨rfl, rfl, -, -⟩ | ⟨-, before⟩
    · rcases either v _ e'' k' second with ⟨rfl, -⟩ | ⟨-, before'⟩
      · rfl
      · obtain ⟨⟨inside, -⟩, -⟩ := sound.bounds v _ e'' k' before'
        omega
    · rcases either v n e'' k' second with ⟨rfl, rfl, -, -⟩ | ⟨-, before'⟩
      · obtain ⟨⟨inside, -⟩, -⟩ := sound.bounds u _ e' k before
        omega
      · exact sound.unique u v n e' e'' k k' before before'
  · intro i inside near unwritten
    have here : i ≠ s.log.length := by
      rintro rfl
      exact unwritten t e 0 (Function.update_self ..)
    have before : i < s.log.length := by omega
    have others : ∀ u e' k, s.pending u ≠ some (i, e', k) := by
      intro u e' k get
      have different : u ≠ t := by
        rintro rfl
        rw [idle] at get
        cases get
      exact unwritten u e' k ((Function.update_of_ne different ..).trans get)
    rw [kept i before inside]
    exact sound.settled i before (by omega) others
  · intro u n e' k get started
    rcases either u n e' k get with ⟨-, -, -, rfl⟩ | ⟨-, before⟩
    · omega
    · exact sound.written u n e' k before started
  · intro u n e' get
    rcases either u n e' 0 get with ⟨rfl, rfl, rfl, -⟩ | ⟨-, before⟩
    · rcases Nat.lt_or_ge s.log.length size with first | again
      · left
        refine ⟨first, ?_⟩
        rw [Nat.mod_eq_of_lt first]
        exact sound.fresh _ first le_rfl
      · right
        have inside : s.log.length - size < s.log.length := by omega
        have back : s.log.length % size = (s.log.length - size) % size := Nat.mod_eq_sub_mod again
        have others : ∀ v e' k, s.pending v ≠ some (s.log.length - size, e', k) :=
          fun v e' k get => free v _ e' k get back.symm
        have value := sound.settled _ inside (by omega) others
        refine ⟨again, by omega, ?_⟩
        rw [kept _ inside]
        change s.slots (s.log.length % size) = _
        rw [back]
        exact value
    · rcases sound.claimed u n e' before with first | ⟨again, inside, value⟩
      · exact Or.inl first
      · exact Or.inr ⟨again, by omega, value.trans (kept _ inside _).symm⟩
  · intro place small beyond
    exact sound.fresh place small (by omega)

/-- A store, after which the writer goes on where it is not the last one. -/
theorem Sound.store (sound : Sound w size s) (lawful : w.Lawful)
    (get : s.pending t = some (n, e, k))
    (goes : (k + 1 < w.steps ∧ next = some (n, e, k + 1)) ∨ (k + 1 = w.steps ∧ next = none)) :
    Sound w size (s.store w size t n e k next) := by
  obtain ⟨⟨here, entry⟩, near, more⟩ := sound.bounds t n e k get
  have either : ∀ u n' e' k', (s.store w size t n e k next).pending u = some (n', e', k') →
      (u = t ∧ n' = n ∧ e' = e ∧ k' = k + 1 ∧ k + 1 < w.steps) ∨
        (u ≠ t ∧ s.pending u = some (n', e', k')) := by
    intro u n' e' k' now
    change Function.update s.pending t _ u = _ at now
    by_cases same : u = t
    · subst same
      rw [Function.update_self] at now
      rcases goes with ⟨less, rfl⟩ | ⟨-, rfl⟩
      · cases now
        exact Or.inl ⟨rfl, rfl, rfl, rfl, less⟩
      · cases now
    · rw [Function.update_of_ne same] at now
      exact Or.inr ⟨same, now⟩
  have written : ∃ old, w.write e k (s.slots (n % size)) = w.writes e (k + 1) old := by
    rcases Nat.eq_zero_or_pos k with rfl | started
    · exact ⟨_, rfl⟩
    · obtain ⟨old, value⟩ := sound.written t n e k get started
      exact ⟨old, congrArg _ value⟩
  have own : (s.store w size t n e k next).slots (n % size) = w.write e k (s.slots (n % size)) :=
    Function.update_self ..
  have others {place : Nat} (other : place ≠ n % size) :
      (s.store w size t n e k next).slots place = s.slots place := Function.update_of_ne other ..
  -- another writer has another slot
  have apart : ∀ u n' e' k', u ≠ t → s.pending u = some (n', e', k') → n' % size ≠ n % size := by
    intro u n' e' k' different before
    obtain ⟨⟨inside, -⟩, recent, -⟩ := sound.bounds u n' e' k' before
    have other : n' ≠ n := by
      rintro rfl
      exact different (sound.unique u t n' e' e k' k before get)
    exact slots_ne here near other inside recent
  constructor
  · intro u n' e' k' now
    rcases either u n' e' k' now with ⟨rfl, rfl, rfl, rfl, less⟩ | ⟨-, before⟩
    · exact ⟨⟨here, entry⟩, near, less⟩
    · exact sound.bounds u n' e' k' before
  · intro u v n' e' e'' k' k'' first second
    rcases either u n' e' k' first with ⟨rfl, rfl, -⟩ | ⟨-, before⟩
    · rcases either v _ e'' k'' second with ⟨rfl, -⟩ | ⟨-, before'⟩
      · rfl
      · exact sound.unique u v _ e e'' k k'' get before'
    · rcases either v n' e'' k'' second with ⟨rfl, rfl, -⟩ | ⟨-, before'⟩
      · exact sound.unique u v _ e' e k' k before get
      · exact sound.unique u v n' e' e'' k' k'' before before'
  · intro i inside recent unwritten
    by_cases same : i = n
    · subst same
      rcases goes with ⟨-, rfl⟩ | ⟨last, rfl⟩
      · exact absurd (Function.update_self ..) (unwritten t e (k + 1))
      · obtain ⟨old, value⟩ := written
        rw [own, value, last, lawful.all]
        exact entry.symm
    · rw [others (slots_ne here near same inside recent)]
      apply sound.settled i inside recent
      intro u e' k' before
      have different : u ≠ t := by
        rintro rfl
        rw [get] at before
        cases before
        exact same rfl
      exact unwritten u e' k' ((Function.update_of_ne different ..).trans before)
  · intro u n' e' k' now started
    rcases either u n' e' k' now with ⟨rfl, rfl, rfl, rfl, -⟩ | ⟨different, before⟩
    · rw [own]
      exact written
    · rw [others (apart u n' e' k' different before)]
      exact sound.written u n' e' k' before started
  · intro u n' e' now
    rcases either u n' e' 0 now with ⟨-, -, -, zero, -⟩ | ⟨different, before⟩
    · omega
    · rw [others (apart u n' e' 0 different before)]
      exact sound.claimed u n' e' before
  · intro place small beyond
    have less : n % size < s.log.length := lt_of_le_of_lt (Nat.mod_le _ _) here
    change s.log.length ≤ place at beyond
    rw [others (by omega)]
    exact sound.fresh place small beyond

theorem Step.sound (step : Step w size s s') (lawful : w.Lawful) (positive : 0 < size)
    (sound : Sound w size s) : Sound w size s' := by
  cases step with
  | claim t e idle free => exact sound.claim positive lawful idle free
  | store t n e k get more => exact sound.store lawful get (Or.inl ⟨more, rfl⟩)
  | finish t n e k get last => exact sound.store lawful get (Or.inr ⟨last, rfl⟩)

omit [DecidableEq τ] in
/-- A slot that can be read has an entry of the log, or is blank. -/
theorem Sound.shown (sound : Sound w size s) (lawful : w.Lawful) (inside : i < s.log.length)
    (near : s.log.length ≤ i + size) : ∃ view, Shown size s i view ∧
      (∀ e, view = some e → s.slots (i % size) = e) ∧ (view = none → w.Blank (s.slots (i % size))) := by
  by_cases unwritten : ∀ t e k, s.pending t ≠ some (i, e, k)
  · refine ⟨_, .stored inside unwritten, ?_, nofun⟩
    rintro _ ⟨⟩
    exact sound.settled i inside near unwritten
  · push Not at unwritten
    obtain ⟨t, e, k, get⟩ := unwritten
    rcases Nat.eq_zero_or_pos k with rfl | started
    · rcases sound.claimed t i e get with ⟨first, blank⟩ | ⟨again, old, value⟩
      · exact ⟨none, .early t e get first, nofun, fun _ => blank⟩
      · refine ⟨_, .old t e get again old, ?_, nofun⟩
        rintro _ ⟨⟩
        exact value
    · obtain ⟨old, value⟩ := sound.written t i e k get started
      refine ⟨none, .writing t e k get started, nofun, fun _ => ?_⟩
      rw [value]
      exact lawful.blank e old k started (sound.bounds t i e k get).2.2

end Step

/-- All slots are blank at the start. -/
def system (τ : Type) [DecidableEq τ] (w : Writer E) (size : Nat) : System (State τ E) where
  init := fun s => (∀ place, w.Blank (s.slots place)) ∧ s.log = [] ∧ ∀ t, s.pending t = none
  step := Step w size

theorem reachable_sound {w : Writer E} {size : Nat} (lawful : w.Lawful) (positive : 0 < size)
    {s : State τ E} (reached : (system τ w size).Reachable s) : Sound w size s := by
  apply reached.invariant
  · rintro s ⟨blank, empty, idle⟩
    have nobody (t : τ) (n : Nat) (e : E) (k : Nat) (get : s.pending t = some (n, e, k)) : False := by
      rw [idle t] at get
      cases get
    have none_ (i : Nat) (inside : i < s.log.length) : False := by
      rw [empty] at inside
      exact Nat.not_lt_zero i inside
    exact ⟨fun t n e k get => (nobody t n e k get).elim, fun t u n e e' k k' get => (nobody t n e k get).elim,
      fun i inside => (none_ i inside).elim, fun t n e k get => (nobody t n e k get).elim,
      fun t n e get => (nobody t n e 0 get).elim, fun place _ _ => blank place⟩
  · exact fun s s' sound step => step.sound lawful positive sound

end Scudo.Lib.SlotRing
