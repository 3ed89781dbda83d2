import Mathlib.Data.List.Induction
import Scudo.Lib.Span

/-!
A ledger of changes to marks over points, replayed in order, and what becomes of it when the
changes sit in several queues that are drained one entry at a time in any interleaving.
-/

namespace Scudo.Lib

/-- Setting or clearing the marks of a span. -/
structure Change where
  set : Bool
  span : Span
  deriving DecidableEq, Repr

namespace Change

def apply (marks : Nat → Bool) (change : Change) : Nat → Bool :=
  fun p => if change.span.has p then change.set else marks p

/-- A change flips every mark that it covers. -/
def Flips (marks : Nat → Bool) (change : Change) : Prop :=
  ∀ p, change.span.has p = true → marks p = !change.set

end Change

def replay (marks : Nat → Bool) (changes : List Change) : Nat → Bool :=
  changes.foldl Change.apply marks

/-- Every change of the list flips the marks it finds. -/
def FlipsAll (marks : Nat → Bool) : List Change → Prop
  | [] => True
  | change :: rest => change.Flips marks ∧ FlipsAll (change.apply marks) rest

section Replay

variable {marks : Nat → Bool} {changes : List Change} {change : Change}

theorem replay_concat : replay marks (changes ++ [change]) = change.apply (replay marks changes) := by
  simp [replay]

theorem flipsAll_concat :
    FlipsAll marks (changes ++ [change]) ↔
      FlipsAll marks changes ∧ change.Flips (replay marks changes) := by
  induction changes generalizing marks with
  | nil => simp [FlipsAll, replay]
  | cons first rest ih =>
    simp only [List.cons_append, FlipsAll, ih, and_assoc]
    rfl

/-- The mark of a point is what the last change about it says. -/
theorem replay_eq_last (p : Nat) :
    replay marks changes p =
      (((changes.filter (fun c => c.span.has p)).getLast?.map Change.set).getD (marks p)) := by
  induction changes using List.reverseRecOn with
  | nil => rfl
  | append_singleton front last ih =>
    rw [replay_concat, Change.apply]
    cases covers : last.span.has p with
    | true => simp [covers]
    | false => simpa [covers] using ih

end Replay

section Fifo

variable {β ρ κ : Type*} [DecidableEq ρ] (ring : β → ρ)

/-- `drained` takes the entries of every ring in the order of `log`, the rings interleaved
in any way. -/
def FifoOrder (log drained : List β) : Prop :=
  ∀ r, drained.filter (fun x => ring x = r) = log.filter (fun x => ring x = r)

variable {ring} {log drained : List β}

theorem FifoOrder.mem_iff (fifo : FifoOrder ring log drained) {x : β} : x ∈ drained ↔ x ∈ log := by
  have same : x ∈ drained.filter (fun y => ring y = ring x) ↔
      x ∈ log.filter (fun y => ring y = ring x) := by rw [fifo (ring x)]
  simpa using same

/-- Draining every other ring first is one of the possible orders. -/
theorem fifoOrder_last (ring : β → ρ) (log : List β) (r : ρ) :
    FifoOrder ring log
      (log.filter (fun x => ring x ≠ r) ++ log.filter (fun x => ring x = r)) := by
  intro s
  rw [List.filter_append, List.filter_filter, List.filter_filter]
  by_cases same : s = r
  · subst same
    have others : log.filter (fun x => decide (ring x = s) && decide (ring x ≠ s)) = [] := by
      apply List.filter_eq_nil_iff.mpr
      intro x _
      simp
    have own : log.filter (fun x => decide (ring x = s) && decide (ring x = s)) =
        log.filter (fun x => ring x = s) := by simp
    rw [others, own, List.nil_append]
  · have own : log.filter (fun x => decide (ring x = s) && decide (ring x = r)) = [] := by
      apply List.filter_eq_nil_iff.mpr
      intro x _ both
      simp only [Bool.and_eq_true, decide_eq_true_eq] at both
      exact same (both.1.symm.trans both.2)
    have others : log.filter (fun x => decide (ring x = s) && decide (ring x ≠ r)) =
        log.filter (fun x => ring x = s) := by
      apply List.filter_congr
      intro x _
      by_cases inRing : ring x = s
      · simp [inRing, same]
      · simp [inRing]
    rw [own, others, List.append_nil]

/-- The kind of the last entry that `about` accepts. -/
def lastKind (about : β → Bool) (kind : β → κ) (entries : List β) : Option κ :=
  (entries.filter about).getLast?.map kind

variable {about : β → Bool} {kind : β → κ}

theorem lastKind_append_of_some {left right : List β} (some : right.filter about ≠ []) :
    lastKind about kind (left ++ right) = lastKind about kind right := by
  unfold lastKind
  rw [List.filter_append, List.getLast?_append_of_ne_nil _ some]

/-- The last entry of a list is the last entry of its own ring. -/
theorem lastKind_eq_of_last {entries : List β} {x : β}
    (last : (entries.filter about).getLast? = some x) :
    lastKind about kind (entries.filter (fun y => ring y = ring x)) = some (kind x) := by
  obtain ⟨front, shape⟩ := List.getLast?_eq_some_iff.mp last
  have swap : (entries.filter (fun y => ring y = ring x)).filter about =
      (entries.filter about).filter (fun y => ring y = ring x) := by
    rw [List.filter_filter, List.filter_filter]
    apply List.filter_congr
    intro y _
    exact Bool.and_comm _ _
  unfold lastKind
  rw [swap, shape]
  simp

/-- Whatever the interleaving, the last entry about a point is of one kind exactly when in
every ring the last entry about it is of that kind. -/
theorem lastKind_fifo_iff :
    (∀ drained, FifoOrder ring log drained →
        lastKind about kind drained = lastKind about kind log) ↔
      ∀ r, (log.filter (fun x => ring x = r)).filter about ≠ [] →
        lastKind about kind (log.filter (fun x => ring x = r)) = lastKind about kind log := by
  constructor
  · intro agree r mentioned
    rw [← agree _ (fifoOrder_last ring log r), lastKind_append_of_some mentioned]
  · intro agree drained fifo
    cases last : (drained.filter about).getLast? with
    | none =>
      have empty : log.filter about = [] := by
        apply List.filter_eq_nil_iff.mpr
        intro x member accepted
        have accepted' : x ∈ drained.filter about :=
          List.mem_filter.mpr ⟨fifo.mem_iff.mpr member, accepted⟩
        rw [List.getLast?_eq_none_iff.mp last] at accepted'
        simp at accepted'
      unfold lastKind
      rw [last, empty]
      rfl
    | some x =>
      have member : x ∈ drained.filter about := List.mem_of_getLast? last
      obtain ⟨inDrained, accepted⟩ := List.mem_filter.mp member
      have mentioned : (log.filter (fun y => ring y = ring x)).filter about ≠ [] := by
        apply List.ne_nil_of_mem (a := x)
        rw [List.mem_filter, List.mem_filter]
        exact ⟨⟨fifo.mem_iff.mp inDrained, by simp⟩, accepted⟩
      have own : lastKind about kind (log.filter (fun y => ring y = ring x)) = some (kind x) := by
        rw [← fifo (ring x)]
        exact lastKind_eq_of_last last
      rw [← agree (ring x) mentioned, own]
      unfold lastKind
      rw [last]
      rfl

end Fifo

end Scudo.Lib
