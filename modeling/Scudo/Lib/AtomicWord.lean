import Mathlib.Data.List.Basic
import Mathlib.Logic.Function.Basic
import Mathlib.Tactic.Common
import Scudo.Lib.Threads
import Scudo.Lib.Transition

/-!
A word that threads change without a lock: with one atomic operation, or with a loop of a load and
compare-exchanges. Each call takes effect at one moment between its start and its end, so that the word
is what the calls make of it one after the other.
-/

namespace Scudo.Lib.AtomicWord

/-- What a thread is doing: the call that it has begun, or the call with the word that it expects, and
how many calls had taken effect when it read that word. -/
inductive Phase (V O : Type) where
  | idle
  | begun (op : O)
  | loaded (op : O) (expected : V) (mark : Nat)

/-- `log` lists the calls in the order in which they took effect, and `returned` those of each thread. -/
structure State (τ V O : Type) where
  word : V
  phase : τ → Phase V O
  log : List (τ × O)
  returned : τ → List O

variable {τ V O : Type} [DecidableEq τ]

def State.setPhase (s : State τ V O) (t : τ) (phase : Phase V O) : State τ V O :=
  { s with phase := Function.update s.phase t phase }

/-- The call takes effect and returns. -/
def State.finish (s : State τ V O) (t : τ) (op : O) (word : V) : State τ V O where
  word := word
  phase := Function.update s.phase t .idle
  log := s.log ++ [(t, op)]
  returned := Function.update s.returned t (s.returned t ++ [op])

section Phases

variable {s : State τ V O} {t u : τ} {op : O} {word : V} {phase : Phase V O}

@[simp] theorem setPhase_self : (s.setPhase t phase).phase t = phase := Function.update_self ..

theorem setPhase_other (different : u ≠ t) : (s.setPhase t phase).phase u = s.phase u :=
  Function.update_of_ne different ..

@[simp] theorem finish_self : (s.finish t op word).phase t = .idle := Function.update_self ..

theorem finish_other (different : u ≠ t) : (s.finish t op word).phase u = s.phase u :=
  Function.update_of_ne different ..

end Phases

/-- `atomic op` tells whether the call is one atomic operation. A compare-exchange that fails reads the
word. -/
inductive Step (atomic : O → Bool) (update : O → V → V) : State τ V O → State τ V O → Prop
  | call {s : State τ V O} (t : τ) (op : O) (idle : s.phase t = .idle) :
      Step atomic update s (s.setPhase t (.begun op))
  | fetch {s : State τ V O} (t : τ) (op : O) (begun : s.phase t = .begun op) (once : atomic op = true) :
      Step atomic update s (s.finish t op (update op s.word))
  | load {s : State τ V O} (t : τ) (op : O) (begun : s.phase t = .begun op) (loop : atomic op = false) :
      Step atomic update s (s.setPhase t (.loaded op s.word s.log.length))
  | exchange {s : State τ V O} (t : τ) (op : O) (expected : V) (mark : Nat)
      (loaded : s.phase t = .loaded op expected mark) (same : s.word = expected) :
      Step atomic update s (s.finish t op (update op expected))
  | retry {s : State τ V O} (t : τ) (op : O) (expected : V) (mark : Nat)
      (loaded : s.phase t = .loaded op expected mark) (other : s.word ≠ expected) :
      Step atomic update s (s.setPhase t (.loaded op s.word s.log.length))

def system (τ : Type) [DecidableEq τ] (atomic : O → Bool) (update : O → V → V) (start : V) :
    System (State τ V O) :=
  ⟨fun s => s = ⟨start, fun _ => .idle, [], fun _ => []⟩, Step atomic update⟩

/-- The word is what the calls make of it in their order, a thread's calls stand in that order as it made
them, and a word that has been read is there until another call takes effect. -/
structure Linear (update : O → V → V) (start : V) (s : State τ V O) : Prop where
  word : s.word = s.log.foldl (fun word call => update call.2 word) start
  program : ∀ t, s.returned t = (s.log.filter fun call => call.1 = t).map Prod.snd
  fresh : ∀ t op expected mark, s.phase t = .loaded op expected mark →
    mark ≤ s.log.length ∧ (∀ call ∈ s.log.drop mark, call.1 ≠ t) ∧
      (s.log.length = mark → s.word = expected)

section Steps

variable {atomic : O → Bool} {update : O → V → V} {start : V} {s s' : State τ V O} {t : τ} {op : O}

theorem Linear.begin (linear : Linear update start s) :
    Linear update start (s.setPhase t (.begun op)) := by
  refine ⟨linear.word, linear.program, ?_⟩
  intro u other expected mark loaded
  by_cases same : u = t
  · subst same
    simp at loaded
  · rw [setPhase_other same] at loaded
    exact linear.fresh u other expected mark loaded

/-- A thread that reads the word. -/
theorem Linear.read (linear : Linear update start s) :
    Linear update start (s.setPhase t (.loaded op s.word s.log.length)) := by
  refine ⟨linear.word, linear.program, ?_⟩
  intro u other expected mark loaded
  by_cases same : u = t
  · subst same
    simp only [setPhase_self, Phase.loaded.injEq] at loaded
    obtain ⟨-, rfl, rfl⟩ := loaded
    refine ⟨Nat.le_refl _, ?_, fun _ => rfl⟩
    simp [State.setPhase]
  · rw [setPhase_other same] at loaded
    exact linear.fresh u other expected mark loaded

theorem Linear.finish (linear : Linear update start s) :
    Linear update start (s.finish t op (update op s.word)) := by
  constructor
  · simp [State.finish, linear.word]
  · intro u
    by_cases same : u = t
    · subst same
      simp [State.finish, linear.program]
    · have apart : ¬t = u := fun eq => same eq.symm
      simp [State.finish, same, apart, linear.program]
  · intro u other expected mark loaded
    by_cases same : u = t
    · subst same
      simp at loaded
    · rw [finish_other same] at loaded
      obtain ⟨bound, others, there⟩ := linear.fresh u other expected mark loaded
      refine ⟨?_, ?_, ?_⟩
      · simp only [State.finish, List.length_append]
        omega
      · intro call inside
        rw [State.finish, List.drop_append_of_le_length bound] at inside
        rcases List.mem_append.mp inside with inside | inside
        · exact others call inside
        · rw [List.mem_singleton.mp inside]
          exact fun eq => same eq.symm
      · intro full
        simp only [State.finish, List.length_append, List.length_singleton] at full
        omega

theorem Linear.step (linear : Linear update start s) (step : Step atomic update s s') :
    Linear update start s' := by
  cases step with
  | call t op idle => exact linear.begin
  | fetch t op begun once => exact linear.finish
  | load t op begun loop => exact linear.read
  | exchange t op expected mark loaded same =>
    subst same
    exact linear.finish
  | retry t op expected mark loaded other => exact linear.read

theorem reachable_linear (reached : (system τ atomic update start).Reachable s) :
    Linear update start s := by
  apply reached.invariant
  · rintro _ rfl
    refine ⟨rfl, fun _ => rfl, ?_⟩
    rintro t op expected mark ⟨⟩
  · intro s s' linear step
    exact linear.step step

/-- A compare-exchange fails only where the call of another thread has taken effect since the read. -/
theorem Linear.interfered (linear : Linear update start s) {expected : V} {mark : Nat}
    (loaded : s.phase t = .loaded op expected mark) (other : s.word ≠ expected) :
    ∃ call ∈ s.log.drop mark, call.1 ≠ t := by
  obtain ⟨bound, others, there⟩ := linear.fresh t op expected mark loaded
  have more : mark < s.log.length := Nat.lt_of_le_of_ne bound fun full => other (there full.symm)
  have head : s.log[mark] ∈ s.log.drop mark := by
    rw [List.drop_eq_getElem_cons more]
    exact List.mem_cons_self
  exact ⟨_, head, others _ head⟩

/-- What the word stands for, when each call changes it as `apply` says. -/
theorem Linear.simulated {A : Type} {R : V → A → Prop} {apply : O → A → A} {value : A}
    (linear : Linear update start s) (first : R start value)
    (agrees : ∀ op word value, R word value → R (update op word) (apply op value)) :
    R s.word (s.log.foldl (fun value call => apply call.2 value) value) := by
  rw [linear.word]
  clear linear
  generalize s.log = log
  induction log generalizing start value with
  | nil => exact first
  | cons call rest ih => exact ih (agrees call.2 start value first)

end Steps

end Scudo.Lib.AtomicWord
